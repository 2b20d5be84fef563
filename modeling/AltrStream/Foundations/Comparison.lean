import AltrStream.Foundations.OrderedWindow
import Mathlib.Order.Compare
import Mathlib.Data.List.Sort

/-! # Comparators

Three-way comparisons that need not be orders. Where one is consistent on the
items at hand, it is the comparison of their ranks, so what is known of keys in a
linear order holds for it.
-/
namespace AltrStream.Foundations
variable {α β : Type*}

/-- On the items of `s`, the comparison reverses when its arguments are exchanged, and "not after"
is transitive. -/
structure ConsistentOn (cmp : α → α → Ordering) (s : Set α) : Prop where
  swap : ∀ a ∈ s, ∀ b ∈ s, cmp b a = (cmp a b).swap
  trans : ∀ a ∈ s, ∀ b ∈ s, ∀ c ∈ s, cmp a b ≠ .gt → cmp b c ≠ .gt → cmp a c ≠ .gt

namespace ConsistentOn

variable {cmp : α → α → Ordering} {s t : Set α}

theorem mono (h : ConsistentOn cmp s) (hts : t ⊆ s) : ConsistentOn cmp t where
  swap a ha b hb := h.swap a (hts ha) b (hts hb)
  trans a ha b hb c hc := h.trans a (hts ha) b (hts hb) c (hts hc)

theorem congr {cmp' : α → α → Ordering} (h : ConsistentOn cmp s)
    (heq : ∀ a ∈ s, ∀ b ∈ s, cmp a b = cmp' a b) : ConsistentOn cmp' s where
  swap a ha b hb := by
    rw [← heq b hb a ha, ← heq a ha b hb]
    exact h.swap a ha b hb
  trans a ha b hb c hc := by
    rw [← heq a ha b hb, ← heq b hb c hc, ← heq a ha c hc]
    exact h.trans a ha b hb c hc

theorem self (h : ConsistentOn cmp s) {a : α} (ha : a ∈ s) : cmp a a = .eq := by
  have hswap := h.swap a ha a ha
  cases hc : cmp a a <;> simp [hc] at hswap ⊢

/-- The comparison of what the items are mapped to. -/
theorem comap {f : β → α} {u : Set β} (h : ConsistentOn cmp s) (hf : ∀ b ∈ u, f b ∈ s) :
    ConsistentOn (fun a b => cmp (f a) (f b)) u where
  swap a ha b hb := h.swap _ (hf a ha) _ (hf b hb)
  trans a ha b hb c hc := h.trans _ (hf a ha) _ (hf b hb) _ (hf c hc)

/-- The reversed comparison. -/
theorem reverse (h : ConsistentOn cmp s) : ConsistentOn (fun a b => (cmp a b).swap) s where
  swap a ha b hb := congrArg Ordering.swap (h.swap a ha b hb)
  trans a ha b hb c hc hab hbc := by
    rw [← h.swap a ha b hb] at hab
    rw [← h.swap b hb c hc] at hbc
    rw [← h.swap a ha c hc]
    exact h.trans c hc b hb a ha hbc hab

theorem eq_trans (h : ConsistentOn cmp s) {a b c : α} (ha : a ∈ s) (hb : b ∈ s) (hc : c ∈ s)
    (hab : cmp a b ≠ .gt) (hbc : cmp b c ≠ .gt) (hac : cmp a c = .eq) :
    cmp a b = .eq ∧ cmp b c = .eq := by
  have hca : cmp c a ≠ .gt := by rw [h.swap a ha c hc, hac]; decide
  have hba : cmp b a ≠ .gt := h.trans b hb c hc a ha hbc hca
  have hcb : cmp c b ≠ .gt := h.trans c hc a ha b hb hca hab
  rw [h.swap a ha b hb] at hba
  rw [h.swap b hb c hc] at hcb
  cases hab' : cmp a b <;> cases hbc' : cmp b c <;> simp_all

/-- Ties are broken by a second comparison. -/
theorem lex {cmp' : α → α → Ordering} (h : ConsistentOn cmp s) (h' : ConsistentOn cmp' s) :
    ConsistentOn (fun a b => (cmp a b).then (cmp' a b)) s where
  swap a ha b hb := by
    show (cmp b a).then (cmp' b a) = _
    rw [h.swap a ha b hb, h'.swap a ha b hb, Ordering.swap_then]
  trans a ha b hb c hc hab hbc := by
    have hab₁ : cmp a b ≠ .gt := by
      intro hgt
      simp [hgt] at hab
    have hbc₁ : cmp b c ≠ .gt := by
      intro hgt
      simp [hgt] at hbc
    cases hac : cmp a c with
    | lt => simp
    | gt => exact absurd hac (h.trans a ha b hb c hc hab₁ hbc₁)
    | eq =>
      obtain ⟨hab₂, hbc₂⟩ := h.eq_trans ha hb hc hab₁ hbc₁ hac
      rw [hab₂] at hab
      rw [hbc₂] at hbc
      exact h'.trans a ha b hb c hc hab hbc

/-- No comparison at all. -/
theorem always_eq (s : Set α) : ConsistentOn (fun _ _ => .eq) s where
  swap _ _ _ _ := rfl
  trans _ _ _ _ _ _ h _ := h

end ConsistentOn

/-! ### Ranks -/

/-- The number of items that come before. -/
def rankIn (cmp : α → α → Ordering) (items : List α) (a : α) : ℕ :=
  items.countP fun b => cmp b a = .lt

section
variable {cmp : α → α → Ordering} {items : List α}

private theorem countP_lt {p q : α → Bool} (h : ∀ x ∈ items, p x = true → q x = true) {a : α}
    (ha : a ∈ items) (hp : p a = false) (hq : q a = true) : items.countP p < items.countP q := by
  induction items with
  | nil => cases ha
  | cons b items ih =>
    obtain ⟨hb, htail⟩ := List.forall_mem_cons.1 h
    rcases List.mem_cons.1 ha with rfl | ha
    · rw [List.countP_cons_of_neg (by simp [hp]), List.countP_cons_of_pos hq]
      exact Nat.lt_succ_of_le (List.countP_mono_left htail)
    · have hlt := ih htail ha
      rw [List.countP_cons, List.countP_cons]
      cases hpb : p b with
      | false => simp only [Bool.false_eq_true, if_false]; omega
      | true => simp only [hb hpb, if_true]; omega

/-- On its items a consistent comparison is the comparison of the ranks. -/
theorem cmp_eq_compare_rank (h : ConsistentOn cmp {a | a ∈ items}) {a b : α} (ha : a ∈ items)
    (hb : b ∈ items) : cmp a b = compare (rankIn cmp items a) (rankIn cmp items b) := by
  have hbefore : ∀ x ∈ items, ∀ y ∈ items, cmp x y ≠ .gt → ∀ z ∈ items,
      decide (cmp z x = .lt) = true → decide (cmp z y = .lt) = true := by
    intro x hx y hy hxy z hz hzx
    have hzx := of_decide_eq_true hzx
    have hzx' : cmp z x ≠ .gt := by simp [hzx]
    have hzy := h.trans z hz x hx y hy hzx' hxy
    refine decide_eq_true ?_
    cases hzy' : cmp z y with
    | lt => rfl
    | gt => exact absurd hzy' hzy
    | eq => simp [(h.eq_trans hz hx hy hzx' hxy hzy').1] at hzx
  have hle : ∀ x ∈ items, ∀ y ∈ items, cmp x y ≠ .gt → rankIn cmp items x ≤ rankIn cmp items y :=
    fun x hx y hy hxy => List.countP_mono_left (hbefore x hx y hy hxy)
  have hlt : ∀ x ∈ items, ∀ y ∈ items, cmp x y = .lt → rankIn cmp items x < rankIn cmp items y := by
    intro x hx y hy hxy
    -- `x` comes before `y`, but not before itself
    exact countP_lt (hbefore x hx y hy (by simp [hxy])) hx (by simp [h.self hx]) (by simp [hxy])
  have hba := h.swap a ha b hb
  cases hab : cmp a b with
  | lt => exact (compare_lt_iff_lt.2 (hlt a ha b hb hab)).symm
  | gt =>
    rw [hab] at hba
    exact (compare_gt_iff_gt.2 (hlt b hb a ha hba)).symm
  | eq =>
    rw [hab] at hba
    exact (compare_eq_iff_eq.2 (le_antisymm (hle a ha b hb (by simp [hab]))
      (hle b hb a ha (by simp [hba])))).symm

theorem cmp_ne_gt_iff_rank (h : ConsistentOn cmp {a | a ∈ items}) {a b : α} (ha : a ∈ items)
    (hb : b ∈ items) : cmp a b ≠ .gt ↔ rankIn cmp items a ≤ rankIn cmp items b := by
  rw [cmp_eq_compare_rank h ha hb, Ne, compare_gt_iff_gt, not_lt]

theorem cmp_eq_iff_rank (h : ConsistentOn cmp {a | a ∈ items}) {a b : α} (ha : a ∈ items)
    (hb : b ∈ items) : cmp a b = .eq ↔ rankIn cmp items a = rankIn cmp items b := by
  rw [cmp_eq_compare_rank h ha hb, compare_eq_iff_eq]

/-! ### Stable sorting -/

/-- The stable sort by a comparison. -/
def stableSort (cmp : α → α → Ordering) (l : List α) : List α :=
  l.insertionSort fun a b => cmp a b ≠ .gt

theorem perm_stableSort (cmp : α → α → Ordering) (l : List α) : (stableSort cmp l).Perm l :=
  List.perm_insertionSort _ l

private theorem orderedInsert_congr {r r' : α → α → Prop} [DecidableRel r] [DecidableRel r'] {a : α}
    {l : List α} (h : ∀ b ∈ l, r a b ↔ r' a b) : l.orderedInsert r a = l.orderedInsert r' a := by
  induction l with
  | nil => rfl
  | cons b l ih =>
    obtain ⟨hb, htail⟩ := List.forall_mem_cons.1 h
    rw [List.orderedInsert_cons, List.orderedInsert_cons, ih htail]
    exact if_congr hb rfl rfl

private theorem insertionSort_congr {r r' : α → α → Prop} [DecidableRel r] [DecidableRel r']
    {l : List α} (h : ∀ a ∈ l, ∀ b ∈ l, r a b ↔ r' a b) : l.insertionSort r = l.insertionSort r' := by
  induction l with
  | nil => rfl
  | cons a l ih =>
    have htail : ∀ x ∈ l, ∀ y ∈ l, r x y ↔ r' x y := fun x hx y hy =>
      h x (List.mem_cons_of_mem _ hx) y (List.mem_cons_of_mem _ hy)
    rw [List.insertionSort_cons, List.insertionSort_cons, ih htail]
    refine orderedInsert_congr fun b hb => h a (List.mem_cons_self ..) b (List.mem_cons_of_mem _ ?_)
    exact (List.perm_insertionSort r' l).mem_iff.1 hb

/-- A list of the items is sorted by their ranks. -/
theorem stableSort_eq_rank (h : ConsistentOn cmp {a | a ∈ items}) {l : List α} (hl : l ⊆ items) :
    stableSort cmp l = l.insertionSort (KeyLE (rankIn cmp items)) :=
  insertionSort_congr fun _ ha _ hb => cmp_ne_gt_iff_rank h (hl ha) (hl hb)

theorem pairwise_stableSort {l : List α} (h : ConsistentOn cmp {a | a ∈ l}) :
    (stableSort cmp l).Pairwise (cmp · · ≠ .gt) := by
  have hsorted := List.pairwise_insertionSort (KeyLE (rankIn cmp l)) l
  rw [← stableSort_eq_rank h (List.Subset.refl l)] at hsorted
  refine hsorted.imp_of_mem fun ha hb hab => ?_
  exact (cmp_ne_gt_iff_rank h ((perm_stableSort _ l).mem_iff.1 ha)
    ((perm_stableSort _ l).mem_iff.1 hb)).2 hab

theorem pairwise_rank (h : ConsistentOn cmp {a | a ∈ items}) {l : List α} (hl : l ⊆ items)
    (hsorted : l.Pairwise (cmp · · ≠ .gt)) : l.Pairwise (KeyLE (rankIn cmp items)) :=
  hsorted.imp_of_mem fun ha hb hab => (cmp_ne_gt_iff_rank h (hl ha) (hl hb)).1 hab

/-- Lists of the items with the same ranks are tied item by item. -/
theorem tied_of_rank_eq (h : ConsistentOn cmp {a | a ∈ items}) {l l' : List α} (hl : l ⊆ items)
    (hl' : l' ⊆ items) (hranks : l.map (rankIn cmp items) = l'.map (rankIn cmp items)) :
    List.Forall₂ (cmp · · = .eq) l l' := by
  induction l generalizing l' with
  | nil =>
    obtain rfl := List.map_eq_nil_iff.1 hranks.symm
    exact .nil
  | cons a l ih =>
    obtain ⟨b, l', rfl, hab, htail⟩ := List.map_eq_cons_iff.1 hranks.symm
    obtain ⟨ha, hl⟩ := List.cons_subset.1 hl
    obtain ⟨hb, hl'⟩ := List.cons_subset.1 hl'
    exact .cons ((cmp_eq_iff_rank h ha hb).2 hab.symm) (ih hl hl' htail.symm)

theorem flatten_perm {l l' : List (List α)} (h : List.Forall₂ List.Perm l' l) :
    l'.flatten.Perm l.flatten := by
  induction h with
  | nil => exact .nil
  | cons hab _ ih => exact hab.append ih

/-- Truncation leaves no item more often than it was. -/
theorem subperm_truncated (k : ℕ) {sources sorted : List (List α)}
    (h : List.Forall₂ List.Perm sorted sources) :
    ((sorted.map (List.take k)).flatten).Subperm sources.flatten := by
  have hsub : ((sorted.map (List.take k)).flatten).Sublist sorted.flatten := by
    clear h
    induction sorted with
    | nil => exact .slnil
    | cons t sorted ih => exact (List.take_sublist k t).append ih
  exact hsub.subperm.trans (flatten_perm h).subperm

/-- Truncating every sorted source to `k` items leaves the first `k` items of the sorted union as
they are, but for ties. -/
theorem tied_take_of_truncated (k : ℕ) (sources sorted : List (List α))
    (h : ConsistentOn cmp {a | a ∈ sources.flatten})
    (hsorted : List.Forall₂ (fun t s => t.Perm s ∧ t.Pairwise (cmp · · ≠ .gt)) sorted sources) :
    List.Forall₂ (cmp · · = .eq) ((stableSort cmp (sorted.map (List.take k)).flatten).take k)
      ((stableSort cmp sources.flatten).take k) := by
  have hperm : sorted.flatten.Perm sources.flatten := flatten_perm (hsorted.imp fun _ _ => And.left)
  have hsub : (sorted.map (List.take k)).flatten ⊆ sources.flatten := by
    intro a ha
    obtain ⟨t, ht, hat⟩ := List.mem_flatten.1 ha
    obtain ⟨u, hu, rfl⟩ := List.mem_map.1 ht
    exact hperm.mem_iff.1 (List.mem_flatten.2 ⟨u, hu, List.mem_of_mem_take hat⟩)
  have hrank : ∀ t ∈ sorted, t.Pairwise (KeyLE (rankIn cmp sources.flatten)) := by
    intro t ht
    have hpairwise : t.Pairwise (cmp · · ≠ .gt) := by
      clear hperm hsub h
      induction hsorted with
      | nil => cases ht
      | cons hts _ ih =>
        rcases List.mem_cons.1 ht with rfl | ht
        · exact hts.2
        · exact ih ht
    refine pairwise_rank h (fun a ha => ?_) hpairwise
    exact hperm.mem_iff.1 (List.mem_flatten.2 ⟨t, ht, ha⟩)
  refine tied_of_rank_eq h ?_ ?_ ?_
  · exact fun a ha => hsub ((perm_stableSort _ _).mem_iff.1 (List.mem_of_mem_take ha))
  · exact fun a ha => (perm_stableSort _ _).mem_iff.1 (List.mem_of_mem_take ha)
  · rw [stableSort_eq_rank h hsub, stableSort_eq_rank h (List.Subset.refl _), List.map_take,
      List.map_take, take_keys_of_truncated _ k sorted hrank, map_key_insertionSort,
      map_key_insertionSort]
    congr 1
    exact List.Perm.eq_of_pairwise' (List.pairwise_insertionSort _ _) (List.pairwise_insertionSort _ _)
      ((List.perm_insertionSort _ _).trans
        ((hperm.map _).trans (List.perm_insertionSort _ _).symm))

end

end AltrStream.Foundations
