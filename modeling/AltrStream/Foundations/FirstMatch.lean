import Mathlib.Data.List.Basic

/-! # First matches

When two searches of one list, each for the first item that passes its own test,
find the same item, and when the item that one finds passes a stricter test.
-/
namespace AltrStream.Foundations
variable {α : Type*} {p q : α → Bool} {items : List α}

/-- The tests agree at every item before which both fail throughout. -/
def AgreeAtFirst (p q : α → Bool) (items : List α) : Prop :=
  ∀ before x after, items = before ++ x :: after → (∀ y ∈ before, p y = false ∧ q y = false) →
    p x = q x

theorem agreeAtFirst_cons {a : α} : AgreeAtFirst p q (a :: items) ↔
    p a = q a ∧ (p a = false → AgreeAtFirst p q items) := by
  constructor
  · intro h
    have ha : p a = q a := h [] a items rfl (by simp)
    refine ⟨ha, fun hp before x after hitems hbefore => ?_⟩
    refine h (a :: before) x after (by rw [hitems, List.cons_append]) fun y hy => ?_
    rcases List.mem_cons.1 hy with rfl | hy
    · exact ⟨hp, ha ▸ hp⟩
    · exact hbefore y hy
  · rintro ⟨ha, h⟩ before x after hitems hbefore
    cases before with
    | nil =>
      obtain ⟨rfl, -⟩ := List.cons.inj hitems
      exact ha
    | cons b before =>
      obtain ⟨rfl, hrest⟩ := List.cons.inj hitems
      obtain ⟨hb, hbefore⟩ := List.forall_mem_cons.1 hbefore
      exact h hb.1 before x after hrest hbefore

instance decidableAgreeAtFirst : (items : List α) → Decidable (AgreeAtFirst p q items)
  | [] => isTrue fun before x after h => by simp at h
  | a :: items =>
    have := decidableAgreeAtFirst items
    decidable_of_iff _ agreeAtFirst_cons.symm

/-- Two searches find the same item if and only if their tests agree at the first item that passes
one of them. -/
theorem find?_eq_find?_iff : items.find? p = items.find? q ↔ AgreeAtFirst p q items := by
  induction items with
  | nil => simp [AgreeAtFirst]
  | cons a items ih =>
    rw [agreeAtFirst_cons, ← ih, List.find?_cons, List.find?_cons]
    cases hp : p a <;> cases hq : q a
    · simp
    · simp only [Bool.false_eq_true, false_and, iff_false]
      intro h
      exact absurd (List.find?_some h) (by simp [hp])
    · simp only [Bool.true_eq_false, false_and, iff_false]
      intro h
      exact absurd (List.find?_some h.symm) (by simp [hq])
    · simp

/-- A search finds an item that passes a stricter test, if there is one, if and only if no item that
passes only the looser test precedes it. -/
theorem find?_stricter_iff (hq : ∀ x ∈ items, q x = true → p x = true)
    (hex : ∃ x ∈ items, q x = true) :
    (∃ x, items.find? p = some x ∧ q x = true) ↔ AgreeAtFirst p q items := by
  rw [← find?_eq_find?_iff]
  constructor
  · rintro ⟨x, hx, hqx⟩
    obtain ⟨-, before, after, rfl, hbefore⟩ := List.find?_eq_some_iff_append.1 hx
    rw [hx, eq_comm]
    refine List.find?_eq_some_iff_append.2 ⟨hqx, before, after, rfl, fun y hy => ?_⟩
    have hpy := hbefore y hy
    cases hqy : q y with
    | false => rfl
    | true => simp [hq y (List.mem_append_left _ hy) hqy] at hpy
  · intro heq
    obtain ⟨x, hx⟩ := Option.isSome_iff_exists.1 (List.find?_isSome.2 hex)
    exact ⟨x, heq.trans hx, List.find?_some hx⟩

/-! ### What is said of an item that may be missing -/

instance decidableForallSome (o : Option α) (r : α → Prop) [DecidablePred r] :
    Decidable (∀ a, o = some a → r a) :=
  match o with
  | none => isTrue fun _ h => nomatch h
  | some a => decidable_of_iff (r a) ⟨fun h _ ha => Option.some.inj ha ▸ h, fun h => h a rfl⟩

instance decidableExistsSome (o : Option α) (r : α → Prop) [DecidablePred r] :
    Decidable (∃ a, o = some a ∧ r a) :=
  match o with
  | none => isFalse fun ⟨_, h, _⟩ => nomatch h
  | some a => decidable_of_iff (r a) ⟨fun h => ⟨a, rfl, h⟩, fun ⟨_, ha, h⟩ => Option.some.inj ha ▸ h⟩

/-- An item that passes the test, and that no earlier one precedes in it, is found. -/
theorem find?_of_pairwise {relevant : α → Prop}
    (h : items.Pairwise fun a b => relevant b → p a = false) {b : α} (hb : b ∈ items)
    (hrelevant : relevant b) (hp : p b = true) : items.find? p = some b := by
  induction items with
  | nil => cases hb
  | cons a items ih =>
    obtain ⟨ha, hitems⟩ := List.pairwise_cons.1 h
    rcases List.mem_cons.1 hb with rfl | hb
    · exact List.find?_cons_of_pos hp
    · rw [List.find?_cons_of_neg (by simp [ha b hb hrelevant]), ih hitems hb]

end AltrStream.Foundations
