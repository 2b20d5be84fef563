import AltrStream.Planning.Merger

/-! # When the order of merged rows is consistent

`_compare_values` falls back on texts where values do not compare. On values that
do, the comparator of rows is consistent, and a stable sort by it is a sort.
-/
namespace AltrStream.Planning
open Foundations Python QueryEngine

variable {V : Type} {rt : Runtime V}

/-- `<` and `>` order the values, up to values of which neither is less. -/
structure PairwiseComparable (rt : Runtime V) (s : Set V) : Prop where
  total : ∀ a ∈ s, ∀ b ∈ s, rt.lt a b ≠ none
  converse : ∀ a ∈ s, ∀ b ∈ s, rt.gt a b = rt.lt b a
  asymm : ∀ a ∈ s, ∀ b ∈ s, rt.lt a b = some true → rt.lt b a = some false
  trans : ∀ a ∈ s, ∀ b ∈ s, ∀ c ∈ s, rt.lt b a = some false → rt.lt c b = some false →
    rt.lt c a = some false

/-- The cells whose values are among the given ones; None always is. -/
def cellsOf (s : Set V) : Set (Option V) := {o | ∀ v ∈ o, v ∈ s}

theorem PairwiseComparable.consistentOn {s : Set V} (h : PairwiseComparable rt s) :
    ConsistentOn (compareValues rt) (cellsOf s) := by
  have hcmp : ∀ a ∈ s, ∀ b ∈ s, (rt.lt a b = some true ∧ rt.lt b a = some false ∧
      compareValues rt (some a) (some b) = .lt) ∨
      (rt.lt a b = some false ∧ rt.lt b a = some true ∧
        compareValues rt (some a) (some b) = .gt) ∨
      rt.lt a b = some false ∧ rt.lt b a = some false ∧
        compareValues rt (some a) (some b) = .eq := by
    intro a ha b hb
    obtain ⟨x, hx⟩ := Option.ne_none_iff_exists'.1 (h.total a ha b hb)
    obtain ⟨y, hy⟩ := Option.ne_none_iff_exists'.1 (h.total b hb a ha)
    have hgt := h.converse a ha b hb
    have hasymm := h.asymm a ha b hb
    cases x <;> cases y <;> simp_all [compareValues]
  constructor
  · intro a ha b hb
    cases a with
    | none => cases b <;> rfl
    | some a =>
      cases b with
      | none => rfl
      | some b =>
        rcases hcmp a (ha a rfl) b (hb b rfl) with ⟨h₁, h₂, h₃⟩ | ⟨h₁, h₂, h₃⟩ | ⟨h₁, h₂, h₃⟩ <;>
          rcases hcmp b (hb b rfl) a (ha a rfl) with ⟨h₄, h₅, h₆⟩ | ⟨h₄, h₅, h₆⟩ | ⟨h₄, h₅, h₆⟩ <;>
          simp_all
  · intro a ha b hb c hc hab hbc
    cases a with
    | none => cases c <;> simp [compareValues]
    | some a =>
      cases b with
      | none => simp [compareValues] at hab
      | some b =>
        cases c with
        | none => simp [compareValues] at hbc
        | some c =>
          have hba : rt.lt b a = some false := by
            rcases hcmp a (ha a rfl) b (hb b rfl) with h' | h' | h' <;> simp_all
          have hcb : rt.lt c b = some false := by
            rcases hcmp b (hb b rfl) c (hc c rfl) with h' | h' | h' <;> simp_all
          have hca := h.trans a (ha a rfl) b (hb b rfl) c (hc c rfl) hba hcb
          rcases hcmp a (ha a rfl) c (hc c rfl) with h' | h' | h' <;> simp_all

theorem ConsistentOn.directed {α : Type} {cmp : α → α → Ordering} {s : Set α} (h : ConsistentOn cmp s)
    (desc : Bool) : ConsistentOn (fun a b => Planning.directed desc (cmp a b)) s := by
  cases desc with
  | false => exact h
  | true => exact h.reverse

section
variable {α : Type} {key key' : FieldPath → α → Option V}

theorem compareKeys_cons (spec : FieldPath × Bool) (specs : List (FieldPath × Bool)) (a b : α) :
    compareKeys rt (spec :: specs) key a b =
      (directed spec.2 (compareValues rt (key spec.1 a) (key spec.1 b))).then
        (compareKeys rt specs key a b) := rfl

theorem compareKeys_congr {β : Type} {key' : FieldPath → β → Option V}
    {specs : List (FieldPath × Bool)} {a b : α} {a' b' : β} (h : ∀ spec ∈ specs,
      key spec.1 a = key' spec.1 a' ∧ key spec.1 b = key' spec.1 b') :
    compareKeys rt specs key a b = compareKeys rt specs key' a' b' := by
  induction specs with
  | nil => rfl
  | cons spec specs ih =>
    obtain ⟨⟨ha, hb⟩, hspecs⟩ := List.forall_mem_cons.1 h
    rw [compareKeys_cons, compareKeys_cons, ha, hb, ih hspecs]

theorem directed_eq_eq {desc : Bool} {o : Ordering} : directed desc o = .eq ↔ o = .eq := by
  cases desc with
  | false => rfl
  | true => exact Ordering.swap_eq_eq

/-- Rows are in a consistent order if the values of each field are. -/
theorem ConsistentOn.compareKeys {specs : List (FieldPath × Bool)} {items : Set α}
    (h : ∀ spec ∈ specs,
      ConsistentOn (fun a b => compareValues rt (key spec.1 a) (key spec.1 b)) items) :
    ConsistentOn (compareKeys rt specs key) items := by
  induction specs with
  | nil => exact ConsistentOn.always_eq items
  | cons spec specs ih =>
    obtain ⟨hspec, hspecs⟩ := List.forall_mem_cons.1 h
    exact (ConsistentOn.directed hspec spec.2).lex (ih hspecs)

/-- The order is consistent if the values that each field is read as are comparable. -/
theorem consistentOn_compareKeys {specs : List (FieldPath × Bool)} {items : Set α}
    (h : ∀ spec ∈ specs, PairwiseComparable rt {v | ∃ a ∈ items, key spec.1 a = some v}) :
    ConsistentOn (compareKeys rt specs key) items :=
  ConsistentOn.compareKeys fun spec hspec =>
    (h spec hspec).consistentOn.comap fun a ha _ hv => ⟨a, ha, hv⟩

end

theorem pairwiseComparable_ints (s : Set ℤ) : PairwiseComparable Runtime.ints s where
  total _ _ _ _ h := by cases h
  converse _ _ _ _ := rfl
  asymm a _ b _ h := by
    simp only [Runtime.ints, Option.some.injEq, decide_eq_true_eq, decide_eq_false_iff_not] at h ⊢
    omega
  trans a _ b _ c _ hab hbc := by
    simp only [Runtime.ints, Option.some.injEq, decide_eq_false_iff_not] at hab hbc ⊢
    omega

end AltrStream.Planning
