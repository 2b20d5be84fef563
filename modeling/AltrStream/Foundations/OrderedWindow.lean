import Mathlib.Data.List.Sort

/-! # Windows of a sorted union

Rows are ordered by a key into a linear order. If every source hands over only
its first `k` rows in key order, the first `k` keys of the sorted union are
unchanged: a row that was cut off has `k` rows of its own source before it.
-/
namespace AltrStream.Foundations

variable {α κ : Type*} [LinearOrder κ]

/-- Compare two rows by their keys. -/
def KeyLE (key : α → κ) (a b : α) : Prop := key a ≤ key b

instance (key : α → κ) : DecidableRel (KeyLE key) := fun a b => inferInstanceAs (Decidable (key a ≤ key b))

instance (key : α → κ) : Std.Total (KeyLE key) := ⟨fun a b => le_total (key a) (key b)⟩

instance (key : α → κ) : IsTrans α (KeyLE key) := ⟨fun _ _ _ hab hbc => le_trans hab hbc⟩

theorem map_key_insertionSort (key : α → κ) (l : List α) :
    (l.insertionSort (KeyLE key)).map key = (l.map key).insertionSort (· ≤ ·) :=
  List.map_insertionSort _ _ key l fun _ _ _ _ => Iff.rfl

/-- Inserting a key that already has `k` keys before it leaves the first `k` keys alone. -/
theorem take_orderedInsert (k : ℕ) (b : κ) (l : List κ) (hl : l.Pairwise (· ≤ ·))
    (hk : k ≤ l.countP (· ≤ b)) : (l.orderedInsert (· ≤ ·) b).take k = l.take k := by
  induction l generalizing k with
  | nil =>
    have hk0 : k = 0 := by simpa using hk
    simp [hk0]
  | cons c l ih =>
    cases k with
    | zero => simp
    | succ k =>
      have hc : c ≤ b := by
        by_contra hcb
        have hall : ∀ x ∈ c :: l, ¬ x ≤ b := by
          intro x hx hxb
          rcases List.mem_cons.mp hx with rfl | hx
          · exact hcb hxb
          · exact hcb ((List.rel_of_pairwise_cons hl hx).trans hxb)
        have hzero : (c :: l).countP (· ≤ b) = 0 := by
          rw [List.countP_eq_zero]
          intro x hx
          simpa using hall x hx
        omega
      have hk' : k ≤ l.countP (· ≤ b) := by
        rw [List.countP_cons_of_pos (by simpa using hc)] at hk
        omega
      have htail := ih k hl.of_cons hk'
      by_cases hbc : b ≤ c
      · -- the new key equals the head, so shifting the head by one changes no key
        have heq : b = c := le_antisymm hbc hc
        subst heq
        rw [List.orderedInsert_cons_of_le _ _ le_rfl, List.take_succ_cons, List.take_succ_cons]
        congr 1
        rw [← htail]
        cases l with
        | nil => rfl
        | cons d l =>
          rw [List.orderedInsert_cons_of_le _ _ (List.rel_of_pairwise_cons hl (by simp))]
      · rw [List.orderedInsert_of_not_le _ _ hbc, List.take_succ_cons, List.take_succ_cons, htail]

/-- Keys that each have `k` keys of `l` before them may be dropped from the union. -/
theorem take_insertionSort_append (k : ℕ) (l cut : List κ)
    (h : ∀ b ∈ cut, k ≤ l.countP (· ≤ b)) :
    ((cut ++ l).insertionSort (· ≤ ·)).take k = (l.insertionSort (· ≤ ·)).take k := by
  induction cut with
  | nil => rfl
  | cons b cut ih =>
    have hcount : k ≤ ((cut ++ l).insertionSort (· ≤ ·)).countP (· ≤ b) := by
      rw [(List.perm_insertionSort _ _).countP_eq, List.countP_append]
      exact (h b (by simp)).trans (Nat.le_add_left _ _)
    rw [List.cons_append, List.insertionSort_cons,
      take_orderedInsert k b _ (List.pairwise_insertionSort _ _) hcount]
    exact ih fun b hb => h b (List.mem_cons_of_mem _ hb)

/-- Every key cut from a sorted source has `k` keys of that source before it. -/
theorem le_countP_of_mem_drop {k : ℕ} {l : List κ} (hl : l.Pairwise (· ≤ ·)) {b : κ}
    (hb : b ∈ l.drop k) : k ≤ (l.take k).countP (· ≤ b) := by
  have hlen : k ≤ l.length := by
    by_contra hlt
    rw [List.drop_eq_nil_of_le (by omega)] at hb
    exact List.not_mem_nil hb
  have hall : ∀ x ∈ l.take k, x ≤ b := by
    have hsplit := hl
    rw [← List.take_append_drop k l, List.pairwise_append] at hsplit
    exact fun x hx => hsplit.2.2 x hx b hb
  rw [List.countP_eq_length.mpr (by simpa using hall), List.length_take, Nat.min_eq_left hlen]

theorem perm_drop_append_take (k : ℕ) (sources : List (List α)) :
    (sources.flatten).Perm
      ((sources.map (List.drop k)).flatten ++ (sources.map (List.take k)).flatten) := by
  induction sources with
  | nil => simp
  | cons s sources ih =>
    simp only [List.flatten_cons, List.map_cons]
    have hs : s.Perm (s.drop k ++ s.take k) := by
      conv_lhs => rw [← List.take_append_drop k s]
      exact List.perm_append_comm
    refine (hs.append ih).trans ?_
    simp only [List.append_assoc]
    refine List.Perm.append_left _ ?_
    rw [← List.append_assoc, ← List.append_assoc]
    exact List.Perm.append_right _ List.perm_append_comm

/-- Truncating every sorted source to `k` rows keeps the first `k` keys of the sorted union. -/
theorem take_keys_of_truncated (key : α → κ) (k : ℕ) (sources : List (List α))
    (hsorted : ∀ s ∈ sources, s.Pairwise (KeyLE key)) :
    (((sources.map (List.take k)).flatten.insertionSort (KeyLE key)).map key).take k =
      ((sources.flatten.insertionSort (KeyLE key)).map key).take k := by
  let kept := ((sources.map (List.take k)).flatten).map key
  let cut := ((sources.map (List.drop k)).flatten).map key
  have hperm : (sources.flatten.map key).Perm (cut ++ kept) := by
    simpa [kept, cut] using (perm_drop_append_take k sources).map key
  have hsort : (sources.flatten.map key).insertionSort (· ≤ ·) =
      (cut ++ kept).insertionSort (· ≤ ·) :=
    List.Perm.eq_of_pairwise' (List.pairwise_insertionSort _ _) (List.pairwise_insertionSort _ _)
      ((List.perm_insertionSort _ _).trans (hperm.trans (List.perm_insertionSort _ _).symm))
  rw [map_key_insertionSort, map_key_insertionSort, hsort, take_insertionSort_append]
  intro b hb
  obtain ⟨x, hx, rfl⟩ := List.mem_map.mp hb
  obtain ⟨t, ht, hxt⟩ := List.mem_flatten.mp hx
  obtain ⟨s, hs, rfl⟩ := List.mem_map.mp ht
  have hskeys : (s.map key).Pairwise (· ≤ ·) := List.pairwise_map.mpr (hsorted s hs)
  have hmem : key x ∈ (s.map key).drop k := by
    rw [← List.map_drop]
    exact List.mem_map_of_mem hxt
  have hsub : List.Sublist ((s.map key).take k) kept := by
    rw [← List.map_take]
    exact (List.sublist_flatten_of_mem (List.mem_map_of_mem hs)).map key
  exact (le_countP_of_mem_drop hskeys hmem).trans (hsub.countP_le)

end AltrStream.Foundations

/-! ## Rows in key order

Rows come out of a store ordered by a key, rows of equal keys in the order they
had. Leaving rows out commutes with the ordering.
-/
namespace AltrStream.Foundations
variable {α κ : Type*} [LinearOrder κ]

/-- `ORDER BY key` -/
def sortedBy (key : α → κ) (rows : List α) : List α := rows.insertionSort (KeyLE key)

variable {key : α → κ}

@[simp] theorem mem_sortedBy {rows : List α} {a : α} : a ∈ sortedBy key rows ↔ a ∈ rows :=
  List.mem_insertionSort _

theorem sortedBy_perm (rows : List α) : (sortedBy key rows).Perm rows :=
  List.perm_insertionSort _ rows

theorem filter_orderedInsert (p : α → Bool) (a : α) (l : List α) (hl : l.Pairwise (KeyLE key)) :
    (l.orderedInsert (KeyLE key) a).filter p =
      if p a then (l.filter p).orderedInsert (KeyLE key) a else l.filter p := by
  induction l with
  | nil => cases hp : p a <;> simp [hp]
  | cons b l ih =>
    have htail := ih hl.of_cons
    by_cases hab : KeyLE key a b
    · rw [List.orderedInsert_cons_of_le _ _ hab]
      cases hp : p a with
      | false => simp [hp]
      | true =>
        rw [List.filter_cons_of_pos hp, if_pos rfl]
        -- everything that is left of the sorted rest is at or after `a`
        have hall : ∀ c ∈ (b :: l).filter p, KeyLE key a c := by
          intro c hc
          rcases List.mem_cons.1 (List.mem_of_mem_filter hc) with rfl | hc
          · exact hab
          · exact hab.trans (List.rel_of_pairwise_cons hl hc)
        cases hrest : (b :: l).filter p with
        | nil => rfl
        | cons c rest =>
          have hac : KeyLE key a c := hall c (hrest ▸ List.mem_cons_self)
          rw [List.orderedInsert_cons_of_le _ _ hac]
    · rw [List.orderedInsert_of_not_le _ _ hab]
      cases hpb : p b with
      | false => rw [List.filter_cons_of_neg (by simp [hpb]), htail,
          List.filter_cons_of_neg (by simp [hpb])]
      | true =>
        rw [List.filter_cons_of_pos hpb, htail, List.filter_cons_of_pos hpb]
        cases hp : p a with
        | false => simp
        | true => rw [if_pos rfl, if_pos rfl, List.orderedInsert_of_not_le _ _ hab]

theorem filter_sortedBy (p : α → Bool) (rows : List α) :
    (sortedBy key rows).filter p = sortedBy key (rows.filter p) := by
  induction rows with
  | nil => rfl
  | cons a rows ih =>
    rw [sortedBy, List.insertionSort_cons,
      filter_orderedInsert p a _ (List.pairwise_insertionSort _ _)]
    rw [sortedBy] at ih
    cases hp : p a with
    | false => rw [if_neg (by simp), ih, List.filter_cons_of_neg (by simp [hp])]
    | true =>
      rw [if_pos rfl, ih, List.filter_cons_of_pos hp, sortedBy, sortedBy, List.insertionSort_cons]

end AltrStream.Foundations
