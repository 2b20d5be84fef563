import AltrStream.Foundations.Dict
import Mathlib.Data.List.Sort
import Mathlib.Data.Prod.Lex

/-! # Grouping rows

Rows are grouped by a key: every row updates the value of its group. The value of a group depends
on its own rows only, in their order. Values can be collected without repetitions, in the order in
which they come first. Rows that are returned in order of a rank may have any order where ranks are
equal.
-/
namespace AltrStream.Foundations

section
variable {ρ κ ν : Type*} [DecidableEq κ] (key : ρ → κ) (step : Option ν → ρ → ν)

/-- `d[key] = step(d.get(key), row)` for every row. -/
def groupRow (d : Dict κ ν) (row : ρ) : Dict κ ν :=
  d.set (key row) (step (d.get? (key row)) row)

def group (rows : List ρ) : Dict κ ν := rows.foldl (groupRow key step) []

/-- The value that rows give to their group. -/
def collect (v : Option ν) (rows : List ρ) : Option ν :=
  rows.foldl (fun v row => some (step v row)) v

theorem get?_foldl_groupRow (rows : List ρ) (d : Dict κ ν) (k : κ) :
    (rows.foldl (groupRow key step) d).get? k =
      collect step (d.get? k) (rows.filter fun row => key row = k) := by
  induction rows generalizing d with
  | nil => rfl
  | cons row rows ih =>
    rw [List.foldl_cons, ih, groupRow, Dict.get?_set]
    by_cases hk : key row = k
    · rw [if_pos hk, List.filter_cons_of_pos (by simpa using hk), hk]
      rfl
    · rw [if_neg hk, List.filter_cons_of_neg (by simpa using hk)]

theorem get?_group (rows : List ρ) (k : κ) :
    (group key step rows).get? k = collect step none (rows.filter fun row => key row = k) :=
  get?_foldl_groupRow key step rows [] k

theorem nodup_keys_group (rows : List ρ) : (Dict.keys (group key step rows)).Nodup := by
  have hgen : ∀ d : Dict κ ν, (Dict.keys d).Nodup →
      (Dict.keys (rows.foldl (groupRow key step) d)).Nodup := by
    induction rows with
    | nil => exact fun d hd => hd
    | cons row rows ih =>
      exact fun d hd => ih _ (Dict.nodup_keys_update hd [(key row, step (d.get? (key row)) row)])
  exact hgen [] List.nodup_nil

end

section
variable {ρ κ ν : Type*} [DecidableEq κ]

/-- A group that starts from a default. -/
theorem getD_collect (f : ν → ρ → ν) (start : ν) (rows : List ρ) :
    (collect (fun v row => f (v.getD start) row) none rows).getD start = rows.foldl f start := by
  have hgen : ∀ v : Option ν, (collect (fun v row => f (v.getD start) row) v rows).getD start =
      rows.foldl f (v.getD start) := by
    induction rows with
    | nil => exact fun _ => rfl
    | cons row rows ih => exact fun v => ih (some (f (v.getD start) row))
  exact hgen none

/-- Dictionaries with the same values have the same entries. -/
theorem perm_of_get? {d d' : Dict κ ν} (hd : (Dict.keys d).Nodup) (hd' : (Dict.keys d').Nodup)
    (h : ∀ k, d.get? k = d'.get? k) : d.Perm d' := by
  refine (List.perm_ext_iff_of_nodup hd.of_map hd'.of_map).2 fun ⟨k, v⟩ => ?_
  rw [← Dict.get?_eq_some_iff hd, ← Dict.get?_eq_some_iff hd', h]

theorem mem_group_iff {key : ρ → κ} {step : Option ν → ρ → ν} {rows : List ρ} {p : κ × ν} :
    p ∈ group key step rows ↔
      collect step none (rows.filter fun row => key row = p.1) = some p.2 := by
  rw [← get?_group, Dict.get?_eq_some_iff (nodup_keys_group key step rows)]

/-- Rows of items with different names are one group for each item. -/
theorem group_perm {σ : Type*} {key : ρ → κ} {step : Option ν → ρ → ν} {rows : List ρ}
    {items : List σ} {name : σ → κ} {value : σ → ν} (hnodup : (items.map name).Nodup)
    (hrows : ∀ row ∈ rows, ∃ s ∈ items, name s = key row)
    (hvalue : ∀ s ∈ items,
      collect step none (rows.filter fun row => key row = name s) = some (value s)) :
    (group key step rows).Perm (items.map fun s => (name s, value s)) := by
  have hkeys : (Dict.keys (items.map fun s => (name s, value s))).Nodup := by
    simpa [Dict.keys, Function.comp_def] using hnodup
  refine perm_of_get? (nodup_keys_group key step rows) hkeys fun k => ?_
  rw [get?_group]
  by_cases hk : ∃ s ∈ items, name s = k
  · obtain ⟨s, hs, rfl⟩ := hk
    rw [hvalue s hs, eq_comm, Dict.get?_eq_some_iff hkeys]
    exact List.mem_map_of_mem hs
  · have hnone : rows.filter (fun row => key row = k) = [] := by
      refine List.filter_eq_nil_iff.2 fun row hrow => ?_
      obtain ⟨s, hs, hname⟩ := hrows row hrow
      simpa [← hname] using fun heq => hk ⟨s, hs, heq⟩
    rw [hnone, eq_comm]
    refine Option.eq_none_iff_forall_ne_some.2 fun v hv => ?_
    obtain ⟨s, hs, hentry⟩ := List.mem_map.1 (Dict.mem_of_get? hv)
    exact hk ⟨s, hs, congrArg Prod.fst hentry⟩

/-- Parts whose items all have one key are kept or dropped as a whole. -/
theorem filter_flatMap_of_key {α : Type*} {parts : ρ → List α} {keep : α → Bool} (whole : ρ → Bool)
    {rows : List ρ} (h : ∀ row ∈ rows, ∀ x ∈ parts row, keep x = whole row) :
    (rows.flatMap parts).filter keep = (rows.filter whole).flatMap parts := by
  induction rows with
  | nil => rfl
  | cons row rows ih =>
    obtain ⟨hrow, hrest⟩ := List.forall_mem_cons.1 h
    rw [List.flatMap_cons, List.filter_append, ih hrest]
    cases hwhole : whole row with
    | true =>
      rw [List.filter_cons_of_pos hwhole, List.flatMap_cons]
      congr 1
      exact List.filter_eq_self.2 fun x hx => (hrow x hx).trans hwhole
    | false =>
      rw [List.filter_cons_of_neg (by simp [hwhole])]
      exact congrArg (· ++ _) (List.filter_eq_nil_iff.2 fun x hx => by simp [hrow x hx, hwhole])

/-- Only one row has items. -/
theorem flatMap_eq_of_nil {α : Type*} {parts : ρ → List α} {rows : List ρ} {row : ρ}
    (hnodup : rows.Nodup) (hrow : row ∈ rows) (h : ∀ x ∈ rows, x ≠ row → parts x = []) :
    rows.flatMap parts = parts row := by
  obtain ⟨before, after, rfl⟩ := List.append_of_mem hrow
  obtain ⟨hbefore, hafter⟩ : row ∉ before ∧ row ∉ after :=
    ⟨fun hin => List.disjoint_of_nodup_append hnodup hin List.mem_cons_self,
      (List.nodup_cons.1 (List.nodup_append.1 hnodup).2.1).1⟩
  rw [List.flatMap_append, List.flatMap_cons, List.flatMap_eq_nil_iff.2 fun x hx =>
      h x (List.mem_append_left _ hx) (fun heq => hbefore (heq ▸ hx)),
    List.flatMap_eq_nil_iff.2 fun x hx => h x (List.mem_append_right _ (List.mem_cons_of_mem _ hx))
      (fun heq => hafter (heq ▸ hx)), List.nil_append, List.append_nil]

theorem nil_of_length_flatMap_le {α : Type*} {parts : ρ → List α} {rows : List ρ} {row : ρ}
    (hrow : row ∈ rows) (h : (rows.flatMap parts).length ≤ (parts row).length) :
    ∀ x ∈ rows, x ≠ row → parts x = [] := by
  obtain ⟨before, after, rfl⟩ := List.append_of_mem hrow
  rw [List.flatMap_append, List.flatMap_cons, List.length_append, List.length_append] at h
  intro x hx hne
  have hlength : ∀ part : List ρ, x ∈ part → (parts x).length ≤ (part.flatMap parts).length :=
    fun part hin => (List.sublist_flatten_of_mem (List.mem_map_of_mem hin)).length_le
  refine List.length_eq_zero_iff.1 ?_
  rcases (by simpa [hne] using hx : x ∈ before ∨ x ∈ after) with hin | hin
  · have hle := hlength before hin
    omega
  · have hle := hlength after hin
    omega

/-- One row has a key that no two rows share. -/
theorem filter_eq_singleton (key : ρ → κ) {rows : List ρ} (hnodup : (rows.map key).Nodup) {row : ρ}
    (hrow : row ∈ rows) : (rows.filter fun x => key x = key row) = [row] := by
  induction rows with
  | nil => cases hrow
  | cons x rows ih =>
    obtain ⟨hx, hrest⟩ := List.nodup_cons.1 hnodup
    rcases List.mem_cons.1 hrow with rfl | hmem
    · rw [List.filter_cons_of_pos (by simp)]
      congr 1
      refine List.filter_eq_nil_iff.2 fun y hy => ?_
      have hne : key y ≠ key row := fun heq => hx (heq ▸ List.mem_map_of_mem hy)
      simpa using hne
    · have hne : key x ≠ key row := fun heq => hx (heq ▸ List.mem_map_of_mem hmem)
      rw [List.filter_cons_of_neg (by simpa using hne)]
      exact ih hrest hmem

end

section
variable {α : Type*} [DecidableEq α]

/-- Append unless it is there. -/
def appendNew (xs : List α) (x : α) : List α := if x ∈ xs then xs else xs ++ [x]

/-- The values in the order in which they come first. -/
def distinct (xs : List α) : List α := xs.foldl appendNew []

theorem mem_foldl_appendNew {xs acc : List α} {x : α} :
    x ∈ xs.foldl appendNew acc ↔ x ∈ acc ∨ x ∈ xs := by
  induction xs generalizing acc with
  | nil => simp
  | cons y xs ih =>
    rw [List.foldl_cons, ih, appendNew, List.mem_cons]
    split
    · rename_i hy
      constructor
      · rintro (h | h)
        · exact .inl h
        · exact .inr (.inr h)
      · rintro (h | rfl | h)
        · exact .inl h
        · exact .inl hy
        · exact .inr h
    · simp [or_assoc]

@[simp] theorem mem_distinct {xs : List α} {x : α} : x ∈ distinct xs ↔ x ∈ xs := by
  simp [distinct, mem_foldl_appendNew]

theorem nodup_foldl_appendNew {xs acc : List α} (h : acc.Nodup) :
    (xs.foldl appendNew acc).Nodup := by
  induction xs generalizing acc with
  | nil => exact h
  | cons y xs ih =>
    rw [List.foldl_cons]
    refine ih ?_
    unfold appendNew
    split
    · exact h
    · rename_i hy
      refine List.nodup_append.2 ⟨h, List.nodup_singleton y, ?_⟩
      intro a ha b hb
      rw [List.mem_singleton] at hb
      rintro rfl
      exact hy (hb ▸ ha)

theorem nodup_distinct (xs : List α) : (distinct xs).Nodup :=
  nodup_foldl_appendNew List.nodup_nil

theorem foldl_appendNew_of_nodup {xs acc : List α} (h : (acc ++ xs).Nodup) :
    xs.foldl appendNew acc = acc ++ xs := by
  induction xs generalizing acc with
  | nil => simp
  | cons y xs ih =>
    have hy : y ∉ acc := by
      intro hy
      exact List.disjoint_of_nodup_append h hy List.mem_cons_self
    rw [List.foldl_cons, appendNew, if_neg hy, ih (by simpa using h), List.append_assoc]
    rfl

theorem distinct_of_nodup {xs : List α} (h : xs.Nodup) : distinct xs = xs :=
  foldl_appendNew_of_nodup h

theorem distinct_eq_self_iff {xs : List α} : distinct xs = xs ↔ xs.Nodup :=
  ⟨fun h => h ▸ nodup_distinct xs, distinct_of_nodup⟩

theorem head?_foldl_appendNew (xs acc : List α) (x : α) :
    (xs.foldl appendNew (x :: acc)).head? = some x := by
  induction xs generalizing acc with
  | nil => rfl
  | cons y xs ih =>
    rw [List.foldl_cons, appendNew]
    split
    · exact ih acc
    · exact ih (acc ++ [y])

theorem head?_distinct (x : α) (xs : List α) : (distinct (x :: xs)).head? = some x :=
  head?_foldl_appendNew xs [] x

/-- All values are the same. -/
theorem distinct_eq_singleton {xs : List α} {x : α} (hne : xs ≠ []) (h : ∀ y ∈ xs, y = x) :
    distinct xs = [x] := by
  have hmem : ∀ y, y ∈ distinct xs ↔ y ∈ [x] := by
    intro y
    rw [mem_distinct, List.mem_singleton]
    refine ⟨h y, ?_⟩
    rintro rfl
    obtain ⟨z, hz⟩ := List.exists_mem_of_ne_nil xs hne
    exact h z hz ▸ hz
  exact List.perm_singleton.1
    ((List.perm_ext_iff_of_nodup (nodup_distinct xs) (List.nodup_singleton x)).2 hmem)

end

section
variable {ρ κ : Type*} [LinearOrder κ] (rank : ρ → κ)

/-- The rows in an order of their ranks, as a query with an ORDER BY may answer them. -/
def Ranked (rows answer : List ρ) : Prop :=
  answer.Perm rows ∧ answer.Pairwise fun a b => rank a ≤ rank b

variable {rank}

theorem exists_ranked (rank : ρ → κ) (rows : List ρ) : ∃ answer, Ranked rank rows answer := by
  let r : ρ → ρ → Prop := fun a b => rank a ≤ rank b
  have htotal : Std.Total r := ⟨fun a b => le_total (rank a) (rank b)⟩
  have htrans : IsTrans ρ r := ⟨fun _ _ _ => le_trans⟩
  exact ⟨rows.insertionSort r, List.perm_insertionSort r _, List.pairwise_insertionSort r _⟩

/-- A row may be answered first wherever no other row must come before it. -/
theorem exists_ranked_first [DecidableEq ρ] (rank : ρ → κ) {rows : List ρ} {x : ρ} (hx : x ∈ rows) :
    ∃ answer, Ranked rank rows answer ∧ ∀ p : ρ → Bool, p x → (∀ a ∈ rows, p a → rank x ≤ rank a) →
      ∃ rest, answer.filter p = x :: rest := by
  obtain ⟨answer, hperm, hsorted⟩ :=
    exists_ranked (fun y => toLex (rank y, if y = x then 0 else 1)) rows
  refine ⟨answer, ⟨hperm, hsorted.imp fun h => ?_⟩, fun p hp hleast => ?_⟩
  · rcases Prod.Lex.toLex_le_toLex.1 h with hlt | ⟨heq, -⟩
    · exact hlt.le
    · exact heq.le
  · have hmem : x ∈ answer.filter p := List.mem_filter.2 ⟨hperm.mem_iff.2 hx, hp⟩
    obtain ⟨first, rest, hfirst⟩ := List.exists_cons_of_ne_nil (List.ne_nil_of_mem hmem)
    have hsorted := hsorted.filter p
    rw [hfirst] at hmem hsorted
    rcases List.mem_cons.1 hmem with rfl | hrest
    · exact ⟨rest, hfirst⟩
    · obtain ⟨hin, hpf⟩ := List.mem_filter.1 (hfirst ▸ List.mem_cons_self : first ∈ answer.filter p)
      have hle := (List.pairwise_cons.1 hsorted).1 x hrest
      rcases Prod.Lex.toLex_le_toLex.1 hle with hlt | ⟨-, hsame⟩
      · exact absurd (hleast first (hperm.mem_iff.1 hin) hpf) (not_le.2 hlt)
      · by_cases hfx : first = x
        · exact ⟨rest, hfx ▸ hfirst⟩
        · simp [hfx] at hsame

/-- Rows of different ranks have one order only. -/
theorem Ranked.eq_of_strict {rows answer : List ρ} (h : Ranked rank rows answer)
    (hrows : rows.Pairwise fun a b => rank a < rank b) : answer = rows := by
  have hinj : ∀ a ∈ rows, ∀ b ∈ rows, rank a = rank b → a = b := by
    intro a ha b hb hab
    by_contra hne
    obtain ⟨i, hi, rfl⟩ := List.getElem_of_mem ha
    obtain ⟨j, hj, rfl⟩ := List.getElem_of_mem hb
    rcases lt_trichotomy i j with hij | rfl | hij
    · exact absurd hab (List.pairwise_iff_getElem.1 hrows i j hi hj hij).ne
    · exact hne rfl
    · exact absurd hab (List.pairwise_iff_getElem.1 hrows j i hj hi hij).ne'
  refine h.1.eq_of_pairwise ?_ h.2 (hrows.imp fun h => h.le)
  intro a b ha hb hab hba
  exact hinj a (h.1.mem_iff.1 ha) b hb (le_antisymm hab hba)

theorem Ranked.filter {rows answer : List ρ} (h : Ranked rank rows answer) (p : ρ → Bool) :
    Ranked rank (rows.filter p) (answer.filter p) :=
  ⟨h.1.filter p, h.2.filter p⟩

end

/-- Positions increase. -/
theorem pairwise_zipIdx {α : Type*} (xs : List α) : (xs.zipIdx 1).Pairwise fun a b => a.2 < b.2 := by
  rw [← List.pairwise_map (f := Prod.snd), List.zipIdx_map_snd]
  exact List.pairwise_lt_range'

end AltrStream.Foundations
