import Mathlib.Data.List.Basic

/-! # Quantified tests with misread members

A list of tests is meant one way (`m`) and carried out another way (`t`), and
`wrong` marks the members whose outcome is flipped. These lemmas say exactly
when the existential or the universal test over the list still comes out as
meant: no member is flipped, a member that is not flipped decides by itself, or
flips in both directions cancel.
-/
namespace AltrStream.Foundations

variable {α : Type*}

/-- The disjunction over `l` comes out as meant although the members in `wrong` are flipped. -/
def AnySettled (l : List α) (m wrong : α → Prop) : Prop :=
  (∀ a ∈ l, ¬ wrong a) ∨ (∃ a ∈ l, ¬ wrong a ∧ m a) ∨
    ((∃ a ∈ l, wrong a ∧ m a) ∧ ∃ a ∈ l, wrong a ∧ ¬ m a)

/-- The conjunction over `l` comes out as meant although the members in `wrong` are flipped. -/
def AllSettled (l : List α) (m wrong : α → Prop) : Prop :=
  (∀ a ∈ l, ¬ wrong a) ∨ (∃ a ∈ l, ¬ wrong a ∧ ¬ m a) ∨
    ((∃ a ∈ l, wrong a ∧ m a) ∧ ∃ a ∈ l, wrong a ∧ ¬ m a)

theorem any_agrees_iff {l : List α} {t m wrong : α → Prop}
    (h : ∀ a ∈ l, (wrong a ↔ ¬ (t a ↔ m a))) :
    ((∃ a ∈ l, t a) ↔ ∃ a ∈ l, m a) ↔ AnySettled l m wrong := by
  have hright : ∀ a ∈ l, ¬ wrong a → (t a ↔ m a) := fun a ha hw => by
    by_contra hne
    exact hw ((h a ha).mpr hne)
  have hflip : ∀ a ∈ l, wrong a → (t a ↔ ¬ m a) := fun a ha hw => by
    have hne := (h a ha).mp hw
    tauto
  constructor
  · intro hiff
    by_cases hnone : ∀ a ∈ l, ¬ wrong a
    · exact .inl hnone
    · by_cases hdecides : ∃ a ∈ l, ¬ wrong a ∧ m a
      · exact .inr (.inl hdecides)
      · -- only flipped members can hold now, so both sides must be witnessed by flips
        push Not at hnone hdecides
        obtain ⟨a, ha, hw⟩ := hnone
        refine .inr (.inr ?_)
        by_cases hma : m a
        · obtain ⟨b, hb, htb⟩ := hiff.mpr ⟨a, ha, hma⟩
          have hwb : wrong b := by
            by_contra hwb
            exact hdecides b hb hwb ((hright b hb hwb).mp htb)
          exact ⟨⟨a, ha, hw, hma⟩, b, hb, hwb, (hflip b hb hwb).mp htb⟩
        · obtain ⟨b, hb, hmb⟩ := hiff.mp ⟨a, ha, (hflip a ha hw).mpr hma⟩
          have hwb : wrong b := by
            by_contra hwb
            exact hdecides b hb hwb hmb
          exact ⟨⟨b, hb, hwb, hmb⟩, a, ha, hw, hma⟩
  · rintro (hnone | ⟨a, ha, hw, hma⟩ | ⟨⟨a, ha, -, hma⟩, b, hb, hwb, hmb⟩)
    · exact exists_congr fun a => and_congr_right fun ha => hright a ha (hnone a ha)
    · exact ⟨fun _ => ⟨a, ha, hma⟩, fun _ => ⟨a, ha, (hright a ha hw).mpr hma⟩⟩
    · exact ⟨fun _ => ⟨a, ha, hma⟩, fun _ => ⟨b, hb, (hflip b hb hwb).mpr hmb⟩⟩

theorem all_agrees_iff {l : List α} {t m wrong : α → Prop}
    (h : ∀ a ∈ l, (wrong a ↔ ¬ (t a ↔ m a))) :
    ((∀ a ∈ l, t a) ↔ ∀ a ∈ l, m a) ↔ AllSettled l m wrong := by
  have hdual := @any_agrees_iff _ l (fun a => ¬ t a) (fun a => ¬ m a) wrong
    fun a ha => (h a ha).trans (not_congr not_iff_not.symm)
  have hswap : AnySettled l (fun a => ¬ m a) wrong ↔ AllSettled l m wrong := by
    simp only [AnySettled, AllSettled, not_not]
    rw [and_comm (a := ∃ a ∈ l, wrong a ∧ ¬ m a)]
  have hall : ∀ p : α → Prop, (∀ a ∈ l, p a) ↔ ¬ ∃ a ∈ l, ¬ p a := fun p => by
    push Not
    rfl
  rw [← hswap, ← hdual, hall t, hall m, not_iff_not]

/-- A second test adds nothing to a disjunction exactly if the first already finds a member
whenever the second does. -/
theorem any_or_iff {l : List α} {p q : α → Prop} :
    ((∃ a ∈ l, p a ∨ q a) ↔ ∃ a ∈ l, p a) ↔ ((∃ a ∈ l, q a) → ∃ a ∈ l, p a) := by
  constructor
  · rintro h ⟨a, ha, hq⟩
    exact h.1 ⟨a, ha, .inr hq⟩
  · intro h
    constructor
    · rintro ⟨a, ha, hp | hq⟩
      · exact ⟨a, ha, hp⟩
      · exact h ⟨a, ha, hq⟩
    · rintro ⟨a, ha, hp⟩
      exact ⟨a, ha, .inl hp⟩

theorem none_or_iff {l : List α} {p q : α → Prop} :
    ((∀ a ∈ l, ¬ p a) ↔ ∀ a ∈ l, ¬ (p a ∨ q a)) ↔ ((∃ a ∈ l, q a) → ∃ a ∈ l, p a) := by
  have hnone : ∀ r : α → Prop, (∀ a ∈ l, ¬ r a) ↔ ¬ ∃ a ∈ l, r a := fun r => by
    push Not
    rfl
  rw [hnone p, hnone fun a => p a ∨ q a, not_iff_not]
  exact iff_comm.trans any_or_iff

end AltrStream.Foundations
