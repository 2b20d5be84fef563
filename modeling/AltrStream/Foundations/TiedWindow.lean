import Mathlib.Data.List.Sort

/-! # Windows of rows in order, and where NULLs stand

Rows are ordered by a key, ties in any way, and a window of them is returned.
Which rows can be returned depends on the keys at the window's places alone.
For keys with NULLs, ordered first or last, this says when the two orders return
the same rows.
-/
namespace AltrStream.Foundations

section
variable {α κ : Type*} (r : κ → κ → Prop) (key : α → κ)

/-- At most `limit` rows from `offset` on, of the rows in some order by key. -/
def Window (offset limit : ℕ) (rows out : List α) : Prop :=
  ∃ sorted : List α, sorted.Perm rows ∧ sorted.Pairwise (fun a b => r (key a) (key b)) ∧
    out = (sorted.drop offset).take limit

variable [DecidableRel r]

/-- The keys at the places of a window. -/
def windowKeys (offset limit : ℕ) (keys : List κ) : List κ :=
  ((keys.insertionSort r).drop offset).take limit

variable [Std.Total r] [IsTrans κ r]

theorem exists_window (offset limit : ℕ) (rows : List α) :
    ∃ out, Window r key offset limit rows out := by
  let le : α → α → Prop := fun a b => r (key a) (key b)
  have : DecidableRel le := fun a b => inferInstanceAs (Decidable (r (key a) (key b)))
  have : Std.Total le := ⟨fun a b => Std.Total.total (key a) (key b)⟩
  have : IsTrans α le := ⟨fun _ _ _ hab hbc => IsTrans.trans _ _ _ hab hbc⟩
  exact ⟨_, rows.insertionSort le, List.perm_insertionSort le rows,
    List.pairwise_insertionSort le rows, rfl⟩

variable {r key} [Std.Antisymm r]

theorem map_key_of_sorted {sorted rows : List α} (hperm : sorted.Perm rows)
    (hsorted : sorted.Pairwise fun a b => r (key a) (key b)) :
    sorted.map key = (rows.map key).insertionSort r :=
  List.Perm.eq_of_pairwise' (List.pairwise_map.2 hsorted) (List.pairwise_insertionSort r _)
    ((hperm.map key).trans (List.perm_insertionSort r _).symm)

/-- A window holds the keys at its places. -/
theorem Window.map_key {offset limit : ℕ} {rows out : List α}
    (h : Window r key offset limit rows out) :
    out.map key = windowKeys r offset limit (rows.map key) := by
  obtain ⟨sorted, hperm, hsorted, rfl⟩ := h
  rw [windowKeys, ← map_key_of_sorted hperm hsorted, List.map_take, List.map_drop]

omit [DecidableRel r] [Std.Total r] [IsTrans κ r] [Std.Antisymm r] in
theorem Window.subperm {offset limit : ℕ} {rows out : List α}
    (h : Window r key offset limit rows out) : out.Subperm rows := by
  obtain ⟨sorted, hperm, -, rfl⟩ := h
  exact ((List.take_sublist _ _).trans (List.drop_sublist _ _)).subperm.trans hperm.subperm

/-- Any rows with the keys at the places of a window can be returned. -/
theorem window_of_map_key {offset limit : ℕ} {rows out : List α} (hsub : out.Subperm rows)
    (hkeys : out.map key = windowKeys r offset limit (rows.map key)) :
    Window r key offset limit rows out := by
  classical
  let keys := (rows.map key).insertionSort r
  let before := keys.take offset
  let after := (keys.drop offset).drop limit
  obtain ⟨rest, hrest⟩ : ∃ rest, rows.Perm (out ++ rest) := by
    obtain ⟨out', hout', hsublist⟩ := hsub
    obtain ⟨rest, hrest⟩ := hsublist.exists_perm_append
    exact ⟨rest, hrest.trans (hout'.append_right rest)⟩
  have hsplit : keys = before ++ (out.map key ++ after) := by
    rw [hkeys, windowKeys, List.take_append_drop, List.take_append_drop]
  have hkeysSorted : keys.Pairwise r := List.pairwise_insertionSort r _
  -- the rows outside of the window, in order, have the keys before it and the keys after it
  obtain ⟨others, hperm, hothers⟩ : ∃ others : List α, others.Perm rest ∧
      others.map key = before ++ after := by
    let le : α → α → Prop := fun a b => r (key a) (key b)
    have : Std.Total le := ⟨fun a b => Std.Total.total (key a) (key b)⟩
    have : IsTrans α le := ⟨fun _ _ _ hab hbc => IsTrans.trans _ _ _ hab hbc⟩
    refine ⟨rest.insertionSort le, List.perm_insertionSort le rest, ?_⟩
    have hsub : (before ++ after).Sublist keys := by
      rw [hsplit]
      exact (List.Sublist.refl _).append (List.sublist_append_right _ _)
    refine List.Perm.eq_of_pairwise' (List.pairwise_map.2 (List.pairwise_insertionSort le rest))
      (hkeysSorted.sublist hsub) ?_
    have hall : (out.map key ++ rest.map key).Perm (before ++ (out.map key ++ after)) := by
      rw [← List.map_append, ← hsplit]
      exact (hrest.symm.map key).trans (List.perm_insertionSort r _).symm
    have hmove : (before ++ (out.map key ++ after)).Perm (out.map key ++ (before ++ after)) := by
      rw [← List.append_assoc, ← List.append_assoc]
      exact List.perm_append_comm.append_right _
    exact ((List.perm_insertionSort le rest).map key).trans
      ((List.perm_append_left_iff _).1 (hall.trans hmove))
  obtain ⟨first, last, rfl, hfirst, hlast⟩ := List.map_eq_append_iff.1 hothers
  have hmap : (first ++ (out ++ last)).map key = keys := by
    rw [List.map_append, List.map_append, hfirst, hlast, ← hsplit]
  refine ⟨first ++ (out ++ last), ?_, ?_, ?_⟩
  · refine List.Perm.trans ?_ hrest.symm
    rw [← List.append_assoc]
    refine (List.perm_append_comm.append_right last).trans ?_
    rw [List.append_assoc]
    exact hperm.append_left out
  · rw [← List.pairwise_map (f := key), hmap]
    exact hkeysSorted
  · have hlength : first.length = min offset keys.length := by
      rw [← List.length_map (f := key), hfirst, List.length_take]
    have hout : out.length = min limit (keys.length - offset) := by
      rw [← List.length_map (f := key), hkeys, windowKeys, List.length_take, List.length_drop]
    have htotal : first.length + (out.length + last.length) = keys.length := by
      rw [← hmap]
      simp
    rw [List.drop_append, List.drop_of_length_le (l := first) (by omega), List.nil_append]
    by_cases hoffset : offset ≤ keys.length
    · rw [show offset - first.length = 0 by omega, List.drop_zero]
      by_cases hlimit : limit ≤ keys.length - offset
      · rw [List.take_append_of_le_length (by omega), List.take_of_length_le (by omega)]
      · obtain rfl : last = [] := List.length_eq_zero_iff.1 (by omega)
        rw [List.append_nil, List.take_of_length_le (by omega)]
    · obtain rfl : out = [] := List.length_eq_zero_iff.1 (by omega)
      obtain rfl : last = [] := List.length_eq_zero_iff.1 (by omega)
      simp

theorem window_iff {offset limit : ℕ} {rows out : List α} : Window r key offset limit rows out ↔
    out.Subperm rows ∧ out.map key = windowKeys r offset limit (rows.map key) :=
  ⟨fun h => ⟨h.subperm, h.map_key⟩, fun h => window_of_map_key h.1 h.2⟩

/-- Two orders return the same rows if and only if they have the same keys in the window. -/
theorem windows_agree_iff {r' : κ → κ → Prop} [DecidableRel r'] [Std.Total r'] [IsTrans κ r']
    [Std.Antisymm r'] {offset limit : ℕ} {rows : List α} :
    (∀ out, Window r key offset limit rows out ↔ Window r' key offset limit rows out) ↔
      windowKeys r offset limit (rows.map key) = windowKeys r' offset limit (rows.map key) := by
  constructor
  · intro hagree
    obtain ⟨out, hout⟩ := exists_window r key offset limit rows
    rw [← hout.map_key, ((hagree out).1 hout).map_key]
  · intro hkeys out
    rw [window_iff, window_iff, hkeys]

end

/-! ### NULLs -/

section
variable {V : Type*} [LinearOrder V] (nullsFirst desc : Bool)

/-- Values in ascending or descending order. -/
def ValueOrder (a b : V) : Prop := if desc then b ≤ a else a ≤ b

/-- Column values in this order, with NULL before or behind all others. -/
def NullOrder : Option V → Option V → Prop
  | none, none => True
  | none, some _ => nullsFirst = true
  | some _, none => nullsFirst = false
  | some a, some b => ValueOrder desc a b

instance : DecidableRel (ValueOrder (V := V) desc) :=
  fun a b => inferInstanceAs (Decidable (if desc then b ≤ a else a ≤ b))

instance : Std.Total (ValueOrder (V := V) desc) where
  total a b := by cases desc <;> simp [ValueOrder, le_total]

instance : IsTrans V (ValueOrder desc) where
  trans a b c hab hbc := by
    cases desc
    · exact le_trans (show a ≤ b from hab) hbc
    · exact le_trans (show c ≤ b from hbc) hab

instance : Std.Antisymm (ValueOrder (V := V) desc) where
  antisymm a b hab hba := by
    cases desc
    · exact le_antisymm (show a ≤ b from hab) hba
    · exact le_antisymm (show a ≤ b from hba) hab

instance : DecidableRel (NullOrder (V := V) nullsFirst desc)
  | none, none => isTrue trivial
  | none, some _ => inferInstanceAs (Decidable (nullsFirst = true))
  | some _, none => inferInstanceAs (Decidable (nullsFirst = false))
  | some a, some b => inferInstanceAs (Decidable (ValueOrder desc a b))

instance : Std.Total (NullOrder (V := V) nullsFirst desc) where
  total a b := by
    cases a with
    | none => cases b <;> cases nullsFirst <;> simp [NullOrder]
    | some a =>
      cases b with
      | none => cases nullsFirst <;> simp [NullOrder]
      | some b => exact Std.Total.total (r := ValueOrder desc) a b

instance : IsTrans (Option V) (NullOrder nullsFirst desc) where
  trans a b c hab hbc := by
    cases a <;> cases b <;> cases c <;> simp_all [NullOrder]
    exact IsTrans.trans (r := ValueOrder desc) _ _ _ hab hbc

instance : Std.Antisymm (NullOrder (V := V) nullsFirst desc) where
  antisymm a b hab hba := by
    cases a <;> cases b <;> simp_all [NullOrder]
    exact Std.Antisymm.antisymm (r := ValueOrder desc) _ _ hab hba

/-- The values of a column without its NULLs, in order. -/
def orderedValues (column : List (Option V)) : List V :=
  (column.filterMap id).insertionSort (ValueOrder desc)

theorem perm_nulls_values (column : List (Option V)) :
    (List.replicate (column.count none) none ++ (column.filterMap id).map some).Perm column := by
  induction column with
  | nil => simp
  | cons a column ih =>
    cases a with
    | none => simpa [List.replicate_succ] using ih
    | some v =>
      have hmiddle := @List.perm_middle _ (some v) (List.replicate (column.count none) none)
        ((column.filterMap id).map some)
      simpa using hmiddle.trans (ih.cons (some v))

/-- A column in order: its NULLs in one block, its values in another. -/
theorem insertionSort_nullOrder (column : List (Option V)) :
    column.insertionSort (NullOrder nullsFirst desc) =
      if nullsFirst then
        List.replicate (column.count none) none ++ (orderedValues desc column).map some
      else (orderedValues desc column).map some ++ List.replicate (column.count none) none := by
  have hnulls : (List.replicate (column.count none) (none : Option V)).Pairwise
      (NullOrder nullsFirst desc) := List.pairwise_replicate.2 (.inr trivial)
  have hvalues : ((orderedValues desc column).map some).Pairwise (NullOrder nullsFirst desc) :=
    List.pairwise_map.2 (List.pairwise_insertionSort (ValueOrder desc) _)
  have hperm : (List.replicate (column.count none) none ++
      (orderedValues desc column).map some).Perm column :=
    ((((List.perm_insertionSort _ _).map some)).append_left _).trans (perm_nulls_values column)
  refine List.Perm.eq_of_pairwise' (List.pairwise_insertionSort _ _) ?_
    ((List.perm_insertionSort _ _).trans ?_)
  · cases nullsFirst with
    | true =>
      rw [if_pos rfl, List.pairwise_append]
      refine ⟨hnulls, hvalues, fun a ha b hb => ?_⟩
      obtain ⟨v, -, rfl⟩ := List.mem_map.1 hb
      rw [List.eq_of_mem_replicate ha]
      rfl
    | false =>
      rw [if_neg (by simp), List.pairwise_append]
      refine ⟨hvalues, hnulls, fun a ha b hb => ?_⟩
      obtain ⟨v, -, rfl⟩ := List.mem_map.1 ha
      rw [List.eq_of_mem_replicate hb]
      rfl
  · cases nullsFirst with
    | true => exact hperm.symm
    | false => exact (List.perm_append_comm.trans hperm).symm

/-- At every place of the window stands a NULL whether NULLs are first or last, or the same value
with and without the NULLs before it. -/
def NullsOutOfSight (offset limit : ℕ) (column : List (Option V)) : Prop :=
  ∀ i, offset ≤ i → i < offset + limit → i < column.length →
    (orderedValues desc column).length ≤ i ∧ i < column.count none ∨
      column.count none ≤ i ∧ i < (orderedValues desc column).length ∧
        (orderedValues desc column)[i - column.count none]? = (orderedValues desc column)[i]?

theorem length_orderedValues (column : List (Option V)) :
    (orderedValues desc column).length + column.count none = column.length := by
  have hlength := (perm_nulls_values column).length_eq
  rw [List.length_append, List.length_replicate, List.length_map] at hlength
  rw [orderedValues, List.length_insertionSort, Nat.add_comm]
  exact hlength

theorem windowKeys_nullOrder_eq_iff (offset limit : ℕ) (column : List (Option V)) :
    windowKeys (NullOrder true desc) offset limit column =
      windowKeys (NullOrder false desc) offset limit column ↔
        NullsOutOfSight desc offset limit column := by
  have hlength := length_orderedValues desc column
  rw [windowKeys, windowKeys, insertionSort_nullOrder, insertionSort_nullOrder, if_pos rfl,
    if_neg (by simp), NullsOutOfSight]
  generalize orderedValues desc column = values at *
  generalize column.count none = nulls at *
  have hfirst : ∀ i, (List.replicate nulls (none : Option V) ++ values.map some)[i]? =
      if i < nulls then some none else (values[i - nulls]?).map some := by
    intro i
    rw [List.getElem?_append, List.length_replicate, List.getElem?_map]
    split_ifs with hi
    · simp [hi]
    · rfl
  have hlast : ∀ i, (values.map some ++ List.replicate nulls (none : Option V))[i]? =
      if i < values.length then (values[i]?).map some
      else if i < values.length + nulls then some none else none := by
    intro i
    rw [List.getElem?_append, List.length_map, List.getElem?_map, List.getElem?_replicate]
    split_ifs <;> first | rfl | omega
  -- equality place by place
  have hplaces : ∀ l l' : List (Option V), (l.drop offset).take limit = (l'.drop offset).take limit ↔
      ∀ i, offset ≤ i → i < offset + limit → l[i]? = l'[i]? := by
    intro l l'
    rw [List.ext_getElem?_iff]
    constructor
    · intro h i hlo hhi
      have hi := h (i - offset)
      rw [List.getElem?_take_of_lt (by omega), List.getElem?_take_of_lt (by omega),
        List.getElem?_drop, List.getElem?_drop, Nat.add_sub_cancel' hlo] at hi
      exact hi
    · intro h i
      by_cases hi : i < limit
      · rw [List.getElem?_take_of_lt hi, List.getElem?_take_of_lt hi, List.getElem?_drop,
          List.getElem?_drop]
        exact h (offset + i) (by omega) (by omega)
      · rw [List.getElem?_eq_none (by simp; omega), List.getElem?_eq_none (by simp; omega)]
  rw [hplaces]
  refine forall_congr' fun i => imp_congr_right fun hlo => imp_congr_right fun hhi => ?_
  rw [hfirst, hlast]
  by_cases hnull : i < nulls
  · by_cases hvalue : i < values.length
    · have hget : values[i]? = some values[i] := List.getElem?_eq_getElem hvalue
      simp only [hnull, hvalue, if_true, hget, Option.map_some]
      constructor
      · intro h
        cases h
      · intro h
        have := h (by omega)
        omega
    · rw [if_pos hnull, if_neg hvalue, if_pos (by omega)]
      exact ⟨fun _ _ => .inl ⟨by omega, hnull⟩, fun _ => rfl⟩
  · rw [if_neg hnull]
    by_cases hvalue : i < values.length
    · rw [if_pos hvalue, (Option.map_injective (Option.some_injective V)).eq_iff]
      exact ⟨fun h _ => .inr ⟨by omega, hvalue, h⟩, fun h => by
        rcases h (by omega) with h | h
        · omega
        · exact h.2.2⟩
    · rw [if_neg hvalue]
      by_cases hlast : i < values.length + nulls
      · have hget : values[i - nulls]? = some values[i - nulls] :=
          List.getElem?_eq_getElem (by omega)
        rw [if_pos hlast, hget]
        constructor
        · intro h
          cases h
        · intro h
          have := h (by omega)
          omega
      · rw [if_neg hlast, List.getElem?_eq_none (by omega)]
        exact ⟨fun _ hi => by omega, fun _ => rfl⟩

/-- Without NULLs their place does not matter. -/
theorem nullsOutOfSight_of_not_mem {offset limit : ℕ} {column : List (Option V)}
    (h : none ∉ column) : NullsOutOfSight desc offset limit column := by
  intro i _ _ hi
  have hzero := List.count_eq_zero_of_not_mem h
  have hlength := length_orderedValues desc column
  refine .inr ⟨by omega, by omega, ?_⟩
  rw [hzero, Nat.sub_zero]

end

end AltrStream.Foundations
