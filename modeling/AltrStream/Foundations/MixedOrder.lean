import AltrStream.Foundations.Comparison

/-! # Comparing by position within a kind and by text across kinds

Items of one kind have positions in a linear order; items of different kinds are compared by their
texts. Such a comparison is consistent exactly where no item has a text between the texts of two
items of another kind whose positions say otherwise.
-/
namespace AltrStream.Foundations

variable {α ι κ τ : Type*} [DecidableEq ι] [LinearOrder κ] [LinearOrder τ]
variable (kind : α → ι) (position : α → κ) (text : α → τ)

def compareMixed (a b : α) : Ordering :=
  if kind a = kind b then compare (position a) (position b) else compare (text a) (text b)

/-- Where the text of `c` lies between those of two items of another kind, and the one with the
greater text is not after the other by position, the two are tied in both respects. -/
def NoTextBetween (s : Set α) : Prop :=
  ∀ a ∈ s, ∀ b ∈ s, ∀ c ∈ s, kind a = kind b → kind c ≠ kind a → position a ≤ position b →
    text b ≤ text c → text c ≤ text a → position a = position b ∧ text a = text b

variable {kind position text} {a b : α}

theorem compareMixed_same (h : kind a = kind b) :
    compareMixed kind position text a b ≠ .gt ↔ position a ≤ position b := by
  rw [compareMixed, if_pos h, compare_le_iff_le]

theorem compareMixed_other (h : kind a ≠ kind b) :
    compareMixed kind position text a b ≠ .gt ↔ text a ≤ text b := by
  rw [compareMixed, if_neg h, compare_le_iff_le]

theorem compareMixed_swap (a b : α) :
    compareMixed kind position text b a = (compareMixed kind position text a b).swap := by
  unfold compareMixed
  by_cases h : kind a = kind b
  · rw [if_pos h, if_pos h.symm]
    exact Std.OrientedOrd.eq_swap
  · have h' : kind b ≠ kind a := fun heq => h heq.symm
    rw [if_neg h, if_neg h']
    exact Std.OrientedOrd.eq_swap

theorem NoTextBetween.consistentOn {s : Set α} (h : NoTextBetween kind position text s) :
    ConsistentOn (compareMixed kind position text) s where
  swap a _ b _ := compareMixed_swap a b
  trans a ha b hb c hc hab hbc := by
    by_cases hkab : kind a = kind b
    · rw [compareMixed_same hkab] at hab
      by_cases hkbc : kind b = kind c
      · rw [compareMixed_same hkbc] at hbc
        exact (compareMixed_same (hkab.trans hkbc)).2 (hab.trans hbc)
      · -- `c` is the odd one out
        rw [compareMixed_other hkbc] at hbc
        have hkac : kind a ≠ kind c := fun heq => hkbc (hkab.symm.trans heq)
        rw [compareMixed_other hkac]
        by_contra hlt
        have hca : text c < text a := not_le.1 hlt
        have htied := h a ha b hb c hc hkab hkac.symm hab hbc hca.le
        exact absurd htied.2 (hbc.trans_lt hca).ne'
    · rw [compareMixed_other hkab] at hab
      by_cases hkbc : kind b = kind c
      · -- `a` is the odd one out
        rw [compareMixed_same hkbc] at hbc
        have hkac : kind a ≠ kind c := fun heq => hkab (heq.trans hkbc.symm)
        rw [compareMixed_other hkac]
        by_contra hlt
        have hca : text c < text a := not_le.1 hlt
        have htied := h b hb c hc a ha hkbc hkab hbc hca.le hab
        exact absurd htied.2 (hca.trans_le hab).ne'
      · rw [compareMixed_other hkbc] at hbc
        by_cases hkac : kind a = kind c
        · -- `b` is the odd one out
          rw [compareMixed_same hkac]
          by_contra hlt
          have hca : position c < position a := not_le.1 hlt
          have htied := h c hc a ha b hb hkac.symm hkbc hca.le hab hbc
          exact absurd htied.1 hca.ne
        · exact (compareMixed_other hkac).2 (hab.trans hbc)

theorem noTextBetween_of_consistentOn {s : Set α}
    (h : ConsistentOn (compareMixed kind position text) s) :
    NoTextBetween kind position text s := by
  intro a ha b hb c hc hkab hkca hpos hbc hca
  have hkac : kind a ≠ kind c := hkca.symm
  have hkbc : kind b ≠ kind c := fun heq => hkac (hkab.trans heq)
  have hab : compareMixed kind position text a b ≠ .gt := (compareMixed_same hkab).2 hpos
  have hbc' : compareMixed kind position text b c ≠ .gt := (compareMixed_other hkbc).2 hbc
  have hca' : compareMixed kind position text c a ≠ .gt := (compareMixed_other hkca).2 hca
  have hac := (compareMixed_other hkac).1 (h.trans a ha b hb c hc hab hbc')
  have hcb := (compareMixed_other hkbc.symm).1 (h.trans c hc a ha b hb hca' hab)
  have hba := (compareMixed_same hkab.symm).1 (h.trans b hb c hc a ha hbc' hca')
  exact ⟨le_antisymm hpos hba, le_antisymm (hac.trans hcb) (hbc.trans hca)⟩

theorem consistentOn_compareMixed_iff {s : Set α} :
    ConsistentOn (compareMixed kind position text) s ↔ NoTextBetween kind position text s :=
  ⟨noTextBetween_of_consistentOn, NoTextBetween.consistentOn⟩

/-! ### Missing items first -/

def missingFirst (cmp : α → α → Ordering) : Option α → Option α → Ordering
  | none, none => .eq
  | none, some _ => .lt
  | some _, none => .gt
  | some a, some b => cmp a b

theorem ConsistentOn.missingFirst {cmp : α → α → Ordering} {s : Set α} (h : ConsistentOn cmp s) :
    ConsistentOn (missingFirst cmp) {o | ∀ a ∈ o, a ∈ s} where
  swap a ha b hb := by
    cases a with
    | none => cases b <;> rfl
    | some a =>
      cases b with
      | none => rfl
      | some b => exact h.swap a (ha a rfl) b (hb b rfl)
  trans a ha b hb c hc hab hbc := by
    cases a with
    | none => cases c <;> exact Ordering.noConfusion
    | some a =>
      cases b with
      | none => exact absurd rfl hab
      | some b =>
        cases c with
        | none => exact absurd rfl hbc
        | some c => exact h.trans a (ha a rfl) b (hb b rfl) c (hc c rfl) hab hbc

end AltrStream.Foundations
