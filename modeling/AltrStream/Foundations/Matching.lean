import Mathlib.Algebra.Order.Group.Multiset
import Mathlib.Data.Multiset.ZeroCons

/-! # Matching the members of one multiset with members of another

`Covered R s t` says that every member of `s` has a member of `t` of its own that
is related to it. What is left of `t` does not matter, so coverage only counts
in one direction.
-/
namespace AltrStream.Foundations

variable {α β : Type*} {R : α → β → Prop}

/-- Every member of `s` is matched with a member of `t` of its own. -/
def Covered (R : α → β → Prop) (s : Multiset α) (t : Multiset β) : Prop :=
  ∃ t' ≤ t, Multiset.Rel R s t'

namespace Covered

@[simp] theorem zero (t : Multiset β) : Covered R 0 t :=
  ⟨0, Multiset.zero_le t, Multiset.Rel.zero⟩

theorem single {a : α} {b : β} (h : R a b) : Covered R {a} {b} :=
  ⟨{b}, le_rfl, Multiset.Rel.cons h Multiset.Rel.zero⟩

theorem mono {s : Multiset α} {t t' : Multiset β} (h : Covered R s t) (ht : t ≤ t') :
    Covered R s t' := by
  obtain ⟨r, hr, hrel⟩ := h
  exact ⟨r, hr.trans ht, hrel⟩

theorem mono_left {s s' : Multiset α} {t : Multiset β} (h : Covered R s t) (hs : s' ≤ s) :
    Covered R s' t := by
  obtain ⟨r, hr, hrel⟩ := h
  obtain ⟨u, rfl⟩ := Multiset.le_iff_exists_add.1 hs
  obtain ⟨r₁, r₂, hrel₁, -, rfl⟩ := Multiset.rel_add_left.1 hrel
  exact ⟨r₁, (Multiset.le_add_right r₁ r₂).trans hr, hrel₁⟩

theorem add {s s' : Multiset α} {t t' : Multiset β} (h : Covered R s t) (h' : Covered R s' t') :
    Covered R (s + s') (t + t') := by
  obtain ⟨r, hr, hrel⟩ := h
  obtain ⟨r', hr', hrel'⟩ := h'
  exact ⟨r + r', add_le_add hr hr', Multiset.Rel.add hrel hrel'⟩

/-- Lists of multisets cover each other member by member. -/
theorem sum {ι κ : Type*} {f : ι → Multiset α} {g : κ → Multiset β} {l : List ι} {l' : List κ}
    (h : List.Forall₂ (fun i k => Covered R (f i) (g k)) l l') :
    Covered R (l.map f).sum (l'.map g).sum := by
  induction h with
  | nil => exact zero _
  | cons h _ ih =>
    rw [List.map_cons, List.map_cons, List.sum_cons, List.sum_cons]
    exact h.add ih

theorem card_le {s : Multiset α} {t : Multiset β} (h : Covered R s t) : s.card ≤ t.card := by
  obtain ⟨r, hr, hrel⟩ := h
  exact (Multiset.card_eq_card_of_rel hrel).trans_le (Multiset.card_le_card hr)

/-- Members of a kind need partners of the kind that their partners have. -/
theorem countP_le {p : α → Prop} {q : β → Prop} [DecidablePred p] [DecidablePred q]
    {s : Multiset α} {t : Multiset β} (h : Covered R s t) (hpq : ∀ a b, R a b → p a → q b) :
    s.countP p ≤ t.countP q := by
  obtain ⟨r, hr, hrel⟩ := h
  refine le_trans ?_ (Multiset.countP_le_of_le q hr)
  clear hr
  induction hrel with
  | zero => simp
  | @cons a b s t hab _ ih =>
    rw [Multiset.countP_cons, Multiset.countP_cons]
    have hstep : (if p a then 1 else 0) ≤ if q b then 1 else 0 := by
      split_ifs with ha hb <;> first | exact absurd (hpq a b hab ha) hb | simp
    omega

end Covered

end AltrStream.Foundations
