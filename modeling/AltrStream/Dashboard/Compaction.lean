import AltrStream.Dashboard.BentoLayout
import Mathlib.Data.Nat.Count
import Mathlib.Tactic.GCongr
import Mathlib.Tactic.Push

/-! # Closing empty rows

The compaction lowers the row of every card by the number of empty rows above it. Cards neither
come to overlap by it nor cease to, and no empty row is left.
-/
namespace AltrStream.Dashboard
namespace BentoCardConfig

variable {c : BentoCardConfig}

def bottom (c : BentoCardConfig) : ℕ := c.row + c.rowSpan

/-- The card moved to a row. -/
def moveTo (c : BentoCardConfig) (row : ℕ) : BentoCardConfig := { c with row := row }

@[simp] theorem moveTo_id (row : ℕ) : (c.moveTo row).id = c.id := rfl
@[simp] theorem moveTo_col (row : ℕ) : (c.moveTo row).col = c.col := rfl
@[simp] theorem moveTo_row (row : ℕ) : (c.moveTo row).row = row := rfl
@[simp] theorem moveTo_colSpan (row : ℕ) : (c.moveTo row).colSpan = c.colSpan := rfl
@[simp] theorem moveTo_rowSpan (row : ℕ) : (c.moveTo row).rowSpan = c.rowSpan := rfl
@[simp] theorem moveTo_self : c.moveTo c.row = c := rfl

@[simp] theorem moveTo_moveTo (row row' : ℕ) : (c.moveTo row).moveTo row' = c.moveTo row' := rfl

theorem withinLimits_moveTo (row : ℕ) : (c.moveTo row).WithinLimits ↔ c.WithinLimits := Iff.rfl

theorem clamp_of_between {x lower upper : ℕ} (h1 : lower ≤ x) (h2 : x ≤ upper) :
    clamp x lower upper = x := by
  unfold clamp
  rw [if_neg (by omega), if_neg (by omega)]

/-- The clamping of `copyWith` changes nothing if the spans are within the limits. -/
theorem copyWith_row (h : c.WithinLimits) (row : ℕ) :
    c.copyWith { row := some row } = c.moveTo row := by
  obtain ⟨h1, h2, h3, h4⟩ := h
  simp only [copyWith, Option.getD_none, Option.getD_some, moveTo]
  congr 1
  · exact clamp_of_between h1 h2
  · exact clamp_of_between h3 h4

theorem WithinLimits.rowSpan_pos (h : c.WithinLimits) : 0 < c.rowSpan := h.2.2.1

end BentoCardConfig

namespace BentoCollisionResolver
open BentoCardConfig

variable {l : Layout} {c : BentoCardConfig} {r : ℕ}

/-- Some card is on the row. -/
def Occupied (l : Layout) (r : ℕ) : Prop := ∃ c ∈ l, c.row ≤ r ∧ r < c.bottom

instance (l : Layout) : DecidablePred (Occupied l) := fun r =>
  inferInstanceAs (Decidable (∃ c ∈ l, c.row ≤ r ∧ r < c.bottom))

/-- The number of empty rows above a row. -/
def gaps (l : Layout) (r : ℕ) : ℕ := Nat.count (fun r => ¬Occupied l r) r

/-! ## The loops of the compaction -/

theorem lowerBottom_eq_max (m : ℕ) (c : BentoCardConfig) : lowerBottom m c = max m c.bottom := by
  change (if c.bottom > m then c.bottom else m) = max m c.bottom
  split <;> omega

theorem bottom_le_lowerBottom (m : ℕ) (c : BentoCardConfig) : c.bottom ≤ lowerBottom m c :=
  (lowerBottom_eq_max m c).ge.trans' (le_max_right _ _)

theorem le_lowerBottom (m : ℕ) (c : BentoCardConfig) : m ≤ lowerBottom m c :=
  (lowerBottom_eq_max m c).ge.trans' (le_max_left _ _)

theorem le_foldl_lowerBottom (l : Layout) (m : ℕ) : m ≤ l.foldl lowerBottom m := by
  induction l generalizing m with
  | nil => exact le_rfl
  | cons c l ih => exact (le_lowerBottom m c).trans (ih _)

theorem bottom_le_foldl (hc : c ∈ l) (m : ℕ) : c.bottom ≤ l.foldl lowerBottom m := by
  induction l generalizing m with
  | nil => simp at hc
  | cons d l ih =>
    rw [List.foldl_cons]
    rcases List.mem_cons.1 hc with rfl | hc
    · exact (bottom_le_lowerBottom m c).trans (le_foldl_lowerBottom l _)
    · exact ih hc _

theorem bottom_le_maxRow (hc : c ∈ l) : c.bottom ≤ maxRow l := bottom_le_foldl hc 0

theorem foldl_lowerBottom_attained (l : Layout) (m : ℕ) :
    l.foldl lowerBottom m = m ∨ ∃ c ∈ l, l.foldl lowerBottom m = c.bottom := by
  induction l generalizing m with
  | nil => exact .inl rfl
  | cons c l ih =>
    rw [List.foldl_cons]
    rcases ih (lowerBottom m c) with h | ⟨d, hd, h⟩
    · rw [h, lowerBottom_eq_max]
      rcases max_choice m c.bottom with hm | hm
      · exact .inl hm
      · exact .inr ⟨c, List.mem_cons_self, hm⟩
    · exact .inr ⟨d, List.mem_cons_of_mem _ hd, h⟩

theorem maxRow_attained (hl : l ≠ []) : ∃ c ∈ l, maxRow l = c.bottom := by
  rcases foldl_lowerBottom_attained l 0 with h | h
  · obtain ⟨c, hc⟩ := List.exists_mem_of_ne_nil l hl
    refine ⟨c, hc, ?_⟩
    have hzero : maxRow l = 0 := h
    have := bottom_le_maxRow hc
    omega
  · exact h

theorem occupied_lt_maxRow (h : Occupied l r) : r < maxRow l := by
  obtain ⟨c, hc, -, hr⟩ := h
  exact hr.trans_le (bottom_le_maxRow hc)

@[simp] theorem length_markRow (m : ℕ) (occupied : List Bool) (r : ℕ) :
    (markRow m occupied r).length = occupied.length := by
  unfold markRow
  split <;> simp

theorem getD_markRow {m : ℕ} {occupied : List Bool} (hlen : occupied.length = m) (x r : ℕ) :
    (markRow m occupied x).getD r false =
      (occupied.getD r false || decide (r < m ∧ r = x)) := by
  unfold markRow
  by_cases hx : x < m
  · rw [if_pos hx]
    by_cases hrx : r = x
    · subst hrx
      simp [hlen, hx]
    · have hxr : x ≠ r := fun h => hrx h.symm
      simp [hxr, hrx]
  · have hno : ¬(r < m ∧ r = x) := by omega
    rw [if_neg hx, decide_eq_false hno, Bool.or_false]

theorem getD_foldl_markRow {m : ℕ} (rows : List ℕ) {occupied : List Bool}
    (hlen : occupied.length = m) (r : ℕ) :
    (rows.foldl (markRow m) occupied).length = m ∧
      (rows.foldl (markRow m) occupied).getD r false =
        (occupied.getD r false || decide (r < m ∧ r ∈ rows)) := by
  induction rows generalizing occupied with
  | nil => simp [hlen]
  | cons x rows ih =>
    obtain ⟨h1, h2⟩ := ih ((length_markRow m occupied x).trans hlen)
    refine ⟨h1, ?_⟩
    rw [List.foldl_cons, h2, getD_markRow hlen, Bool.or_assoc, ← Bool.decide_or]
    congr 1
    rw [decide_eq_decide, List.mem_cons, ← and_or_left]

theorem getD_foldl_markCard {m : ℕ} (l : Layout) {occupied : List Bool}
    (hlen : occupied.length = m) (r : ℕ) :
    (l.foldl (markCard m) occupied).getD r false =
      (occupied.getD r false || decide (r < m ∧ Occupied l r)) := by
  induction l generalizing occupied with
  | nil => simp [Occupied]
  | cons c l ih =>
    obtain ⟨h1, h2⟩ := getD_foldl_markRow (List.range' c.row c.rowSpan) hlen r
    rw [List.foldl_cons, markCard, ih h1, h2, Bool.or_assoc, ← Bool.decide_or]
    congr 1
    rw [decide_eq_decide, ← and_or_left]
    refine and_congr_right fun _ => ?_
    simp [Occupied, bottom, List.mem_range'_1]

theorem getD_occupiedRows (l : Layout) (r : ℕ) :
    (occupiedRows l (maxRow l)).getD r false = decide (Occupied l r) := by
  unfold occupiedRows
  have hfalse : (List.replicate (maxRow l) false).getD r false = false := by
    by_cases hr : r < maxRow l <;> simp [hr]
  rw [getD_foldl_markCard l List.length_replicate, hfalse, Bool.false_or, decide_eq_decide,
    and_iff_right_iff_imp]
  exact occupied_lt_maxRow

theorem gaps_succ (l : Layout) (r : ℕ) :
    gaps l (r + 1) = if Occupied l r then gaps l r else gaps l r + 1 := by
  unfold gaps
  rw [Nat.count_succ]
  by_cases hocc : Occupied l r <;> simp [hocc]

theorem foldl_countRow (l : Layout) {m n : ℕ} (hn : n ≤ m) {s : ℕ × List ℕ}
    (hs : (List.range n).foldl (countRow (occupiedRows l (maxRow l)))
      (0, List.replicate (m + 1) 0) = s) :
    s.1 = gaps l n ∧ s.2.length = m + 1 ∧ ∀ r ≤ n, s.2.getD r 0 = gaps l r := by
  induction n generalizing s with
  | zero =>
    subst hs
    refine ⟨rfl, by simp, ?_⟩
    intro r hr
    obtain rfl : r = 0 := by omega
    simp [gaps]
  | succ n ih =>
    obtain ⟨h1, h2, h3⟩ := ih (by omega) rfl
    rw [List.range_succ, List.foldl_append, List.foldl_cons, List.foldl_nil] at hs
    generalize hprev : (List.range n).foldl (countRow (occupiedRows l (maxRow l)))
      (0, List.replicate (m + 1) 0) = prev at hs h1 h2 h3
    have hcount : (if (occupiedRows l (maxRow l)).getD n false then prev.1 else prev.1 + 1) =
        gaps l (n + 1) := by
      rw [getD_occupiedRows, h1, gaps_succ]
      simp
    have hs' : s = (gaps l (n + 1), prev.2.set (n + 1) (gaps l (n + 1))) := by
      rw [← hs, ← hcount, countRow]
    subst hs'
    refine ⟨rfl, by simpa using h2, ?_⟩
    intro r hr
    rcases Nat.lt_or_eq_of_le hr with hlt | rfl
    · have hne : n + 1 ≠ r := by omega
      have hprev := h3 r (by omega)
      rw [List.getD_eq_getElem?_getD] at hprev ⊢
      rw [List.getElem?_set_ne hne, hprev]
    · rw [List.getD_eq_getElem?_getD, List.getElem?_set_self (by omega), Option.getD_some]

/-! ## What the compaction does -/

theorem gaps_mono (l : Layout) : Monotone (gaps l) := Nat.count_monotone _

theorem gaps_le (l : Layout) (r : ℕ) : gaps l r ≤ r := Nat.count_le _

/-- Where a row goes. -/
def raised (l : Layout) (r : ℕ) : ℕ := r - gaps l r

theorem raised_succ (l : Layout) (r : ℕ) :
    raised l (r + 1) = if Occupied l r then raised l r + 1 else raised l r := by
  unfold raised
  have hle := gaps_le l r
  rw [gaps_succ]
  split <;> omega

theorem raised_le_self (l : Layout) (r : ℕ) : raised l r ≤ r := Nat.sub_le _ _

theorem raised_mono (l : Layout) : Monotone (raised l) := by
  refine monotone_nat_of_le_succ fun r => ?_
  rw [raised_succ]
  split <;> omega

theorem raised_add_of_occupied {n : ℕ} (h : ∀ i < n, Occupied l (r + i)) :
    raised l (r + n) = raised l r + n := by
  induction n with
  | zero => rfl
  | succ n ih =>
    rw [← Nat.add_assoc, raised_succ, if_pos (h n (Nat.lt_succ_self n)),
      ih fun i hi => h i (Nat.lt_succ_of_lt hi)]
    omega

/-- A card stays in one piece. -/
theorem raised_bottom (hc : c ∈ l) : raised l c.bottom = raised l c.row + c.rowSpan := by
  refine raised_add_of_occupied fun i hi => ⟨c, hc, by omega, ?_⟩
  unfold bottom
  omega

theorem raised_eq_of_no_gaps (h : gaps l (maxRow l) = 0) (hr : r ≤ maxRow l) : raised l r = r := by
  have hzero : gaps l r = 0 := Nat.le_zero.1 (h ▸ gaps_mono l hr)
  simp [raised, hzero]

theorem row_le_maxRow (hc : c ∈ l) : c.row ≤ maxRow l :=
  (Nat.le_add_right _ _).trans (bottom_le_maxRow hc)

/-- The compaction moves every card by the empty rows above it. -/
theorem compactRows_eq (hlim : ∀ c ∈ l, c.WithinLimits) :
    compactRows l = l.map fun c => c.moveTo (raised l c.row) := by
  have hsame : gaps l (maxRow l) = 0 → l = l.map fun c => c.moveTo (raised l c.row) := by
    intro h
    refine (List.map_id' l).symm.trans (List.map_congr_left fun c hc => ?_)
    rw [raised_eq_of_no_gaps h (row_le_maxRow hc), moveTo_self]
  obtain ⟨h1, -, h3⟩ := foldl_countRow l (le_refl (maxRow l)) rfl
  unfold compactRows
  split
  · rename_i hnil
    obtain rfl : l = [] := by simpa using hnil
    rfl
  · simp only []
    split
    · rename_i hzero
      refine hsame ?_
      rw [hzero]
      rfl
    · split
      · rename_i hzero
        exact hsame (h1.symm.trans hzero)
      · refine List.map_congr_left fun c hc => ?_
        have hclamp : clamp c.row 0 (maxRow l) = c.row :=
          clamp_of_between (Nat.zero_le _) (row_le_maxRow hc)
        have hshift : (emptyRowsBefore (occupiedRows l (maxRow l)) (maxRow l)).2.getD c.row 0 =
            gaps l c.row := h3 c.row (row_le_maxRow hc)
        rw [hclamp, hshift]
        split
        · rename_i hgap
          rw [raised, hgap, Nat.sub_zero, moveTo_self]
        · rw [copyWith_row (hlim c hc)]
          rfl

/-! ## Overlaps and empty rows -/

/-- The two cards have a column in common. -/
def Columns (a b : BentoCardConfig) : Prop :=
  a.col < b.col + b.colSpan ∧ b.col < a.col + a.colSpan

theorem itemsOverlap_iff {a b : BentoCardConfig} : itemsOverlap a b = true ↔
    a.id ≠ b.id ∧ Columns a b ∧ a.row < b.bottom ∧ b.row < a.bottom := by
  unfold itemsOverlap
  by_cases hid : a.id = b.id
  · simp [hid]
  · rw [if_neg hid]
    simp [hid, Columns, bottom]

theorem raised_lt_iff (hocc : Occupied l r) (x : ℕ) : raised l r < raised l x ↔ r < x := by
  constructor
  · intro h
    by_contra hle
    exact absurd (raised_mono l (not_lt.1 hle)) (not_le.2 h)
  · intro h
    have hsucc : raised l (r + 1) = raised l r + 1 := by rw [raised_succ, if_pos hocc]
    have hle : raised l (r + 1) ≤ raised l x := raised_mono l h
    omega

theorem occupied_row (hc : c ∈ l) (hlim : c.WithinLimits) : Occupied l c.row :=
  ⟨c, hc, le_rfl, Nat.lt_add_of_pos_right hlim.rowSpan_pos⟩

/-- Closing the empty rows keeps which cards overlap. -/
theorem itemsOverlap_raised (hlim : ∀ c ∈ l, c.WithinLimits) {a b : BentoCardConfig} (ha : a ∈ l)
    (hb : b ∈ l) : itemsOverlap (a.moveTo (raised l a.row)) (b.moveTo (raised l b.row)) =
      itemsOverlap a b := by
  have hbottom : ∀ c ∈ l, (c.moveTo (raised l c.row)).bottom = raised l c.bottom :=
    fun c hc => (raised_bottom hc).symm
  rw [Bool.eq_iff_iff, itemsOverlap_iff, itemsOverlap_iff, hbottom a ha, hbottom b hb]
  simp only [moveTo_id, moveTo_row]
  rw [raised_lt_iff (occupied_row ha (hlim a ha)), raised_lt_iff (occupied_row hb (hlim b hb))]
  rfl

theorem exists_raised_eq {n : ℕ} (h : r < raised l n) : ∃ x < n, Occupied l x ∧ raised l x = r := by
  induction n with
  | zero => simp [raised] at h
  | succ n ih =>
    rw [raised_succ] at h
    by_cases hocc : Occupied l n
    · rw [if_pos hocc] at h
      rcases Nat.lt_or_eq_of_le (Nat.le_of_lt_succ h) with hlt | heq
      · obtain ⟨x, hx, hrest⟩ := ih hlt
        exact ⟨x, Nat.lt_succ_of_lt hx, hrest⟩
      · exact ⟨n, Nat.lt_succ_self n, hocc, heq.symm⟩
    · rw [if_neg hocc] at h
      obtain ⟨x, hx, hrest⟩ := ih h
      exact ⟨x, Nat.lt_succ_of_lt hx, hrest⟩

/-- No row above the bottom is empty. -/
def Full (l : Layout) : Prop := ∀ r < maxRow l, Occupied l r

theorem full_compactRows (hlim : ∀ c ∈ l, c.WithinLimits) : Full (compactRows l) := by
  intro r hr
  rw [compactRows_eq hlim] at hr ⊢
  have hne : (l.map fun c => c.moveTo (raised l c.row)) ≠ [] := by
    intro hnil
    rw [hnil] at hr
    simp [maxRow] at hr
  obtain ⟨d, hd, hmax⟩ := maxRow_attained hne
  obtain ⟨e, he, rfl⟩ := List.mem_map.1 hd
  have hbottom : (e.moveTo (raised l e.row)).bottom = raised l e.bottom := (raised_bottom he).symm
  rw [hmax, hbottom] at hr
  obtain ⟨x, -, ⟨c, hc, h1, h2⟩, rfl⟩ := exists_raised_eq hr
  refine ⟨c.moveTo (raised l c.row), List.mem_map.2 ⟨c, hc, rfl⟩, raised_mono l h1, ?_⟩
  have hc' : (c.moveTo (raised l c.row)).bottom = raised l c.bottom := (raised_bottom hc).symm
  rw [hc']
  exact (raised_lt_iff ⟨c, hc, h1, h2⟩ _).2 h2

theorem compactRows_of_full (hlim : ∀ c ∈ l, c.WithinLimits) (h : Full l) : compactRows l = l := by
  have hall : ∀ c ∈ l, raised l c.row = c.row := by
    intro c hc
    have hfull : ∀ i < c.row, Occupied l (0 + i) := by
      intro i hi
      rw [Nat.zero_add]
      exact h i (hi.trans_le (row_le_maxRow hc))
    have := raised_add_of_occupied hfull
    rw [Nat.zero_add] at this
    rw [this]
    simp [raised]
  rw [compactRows_eq hlim]
  refine (List.map_congr_left fun c hc => ?_).trans (List.map_id' l)
  rw [hall c hc, moveTo_self]

end BentoCollisionResolver

end AltrStream.Dashboard
