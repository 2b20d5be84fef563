import Mathlib.Algebra.GroupWithZero.Nat
import Mathlib.Data.List.Induction

/-! # Insertion-ordered dictionaries

A dictionary is the list of its entries in insertion order. Assigning an
existing key keeps its place and replaces its value, so only the last
assignment to a key can be looked up.
-/
namespace AltrStream.Foundations

abbrev Dict (κ ν : Type*) := List (κ × ν)

namespace Dict

variable {κ ν : Type*} [DecidableEq κ]

def set : Dict κ ν → κ → ν → Dict κ ν
  | [], k, v => [(k, v)]
  | (k', v') :: d, k, v => if k' = k then (k, v) :: d else (k', v') :: set d k v

def get? : Dict κ ν → κ → Option ν
  | [], _ => none
  | (k', v') :: d, k => if k' = k then some v' else get? d k

def contains (d : Dict κ ν) (k : κ) : Bool := (d.get? k).isSome

/-- Assign the given entries in order. -/
def update (d : Dict κ ν) (entries : List (κ × ν)) : Dict κ ν :=
  entries.foldl (fun d e => d.set e.1 e.2) d

def ofEntries (entries : List (κ × ν)) : Dict κ ν := update [] entries

@[simp] theorem get?_nil (k : κ) : get? ([] : Dict κ ν) k = none := rfl

@[simp] theorem get?_set (d : Dict κ ν) (k k' : κ) (v : ν) :
    (d.set k v).get? k' = if k = k' then some v else d.get? k' := by
  induction d with
  | nil => simp [set, get?]
  | cons e d ih =>
    obtain ⟨j, w⟩ := e
    by_cases hjk : j = k
    · rw [set, if_pos hjk, get?, get?, hjk]
      by_cases hk : k = k' <;> simp [hk]
    · rw [set, if_neg hjk, get?, get?, ih]
      by_cases hk : k = k'
      · simp [← hk, hjk]
      · simp [hk]

theorem update_append (d : Dict κ ν) (es es' : List (κ × ν)) :
    d.update (es ++ es') = (d.update es).update es' := List.foldl_append ..

@[simp] theorem update_nil (d : Dict κ ν) : d.update [] = d := rfl

@[simp] theorem update_cons (d : Dict κ ν) (e : κ × ν) (es : List (κ × ν)) :
    d.update (e :: es) = (d.set e.1 e.2).update es := rfl

/-- A looked-up value was there before the assignments or was assigned by one of them. -/
theorem get?_update_cases {d : Dict κ ν} {es : List (κ × ν)} {k : κ} {v : ν}
    (h : (d.update es).get? k = some v) : d.get? k = some v ∨ (k, v) ∈ es := by
  induction es generalizing d with
  | nil => exact .inl h
  | cons e es ih =>
    rcases ih h with hset | hmem
    · rw [get?_set] at hset
      by_cases hk : e.1 = k
      · rw [if_pos hk] at hset
        exact .inr (by simp [← hk, ← Option.some.inj hset])
      · rw [if_neg hk] at hset
        exact .inl hset
    · exact .inr (List.mem_cons_of_mem _ hmem)

/-- A key that is assigned has a value afterwards. -/
theorem get?_update_isSome {d : Dict κ ν} {es : List (κ × ν)} {k : κ}
    (h : (d.get? k).isSome ∨ ∃ v, (k, v) ∈ es) : ((d.update es).get? k).isSome := by
  induction es generalizing d with
  | nil => simpa using h
  | cons e es ih =>
    refine ih ?_
    rw [get?_set]
    by_cases hk : e.1 = k
    · simp [hk]
    · rcases h with h | ⟨v, hv⟩
      · simp [hk, h]
      · rcases List.mem_cons.mp hv with rfl | hv
        · exact absurd rfl hk
        · exact .inr ⟨v, hv⟩

def keys (d : Dict κ ν) : List κ := d.map Prod.fst

theorem keys_set (d : Dict κ ν) (k : κ) (v : ν) :
    keys (set d k v) = if k ∈ keys d then keys d else keys d ++ [k] := by
  induction d with
  | nil => simp [keys, set]
  | cons e d ih =>
    obtain ⟨j, w⟩ := e
    by_cases hjk : j = k
    · simp [keys, set, hjk]
    · have hkj : k ≠ j := fun h => hjk h.symm
      rw [set, if_neg hjk]
      change j :: keys (set d k v) = if k ∈ j :: keys d then j :: keys d else j :: keys d ++ [k]
      rw [ih]
      by_cases hk : k ∈ keys d <;> simp [hk, hkj]

theorem mem_keys_set {d : Dict κ ν} {k k' : κ} {v : ν} :
    k' ∈ keys (d.set k v) ↔ k' = k ∨ k' ∈ keys d := by
  rw [keys_set]
  split_ifs with hk
  · exact ⟨.inr, fun h => h.elim (fun heq => heq ▸ hk) id⟩
  · rw [List.mem_append, List.mem_singleton, or_comm]

/-- A new key goes to the end. -/
theorem set_eq_append {d : Dict κ ν} {k : κ} {v : ν} (h : k ∉ keys d) : d.set k v = d ++ [(k, v)] := by
  induction d with
  | nil => rfl
  | cons e d ih =>
    obtain ⟨j, w⟩ := e
    obtain ⟨hne, hd⟩ : k ≠ j ∧ k ∉ keys d := by simpa [keys, not_or] using h
    rw [set, if_neg hne.symm, ih hd, List.cons_append]

theorem nodup_keys_update {d : Dict κ ν} (h : (keys d).Nodup) (es : List (κ × ν)) :
    (keys (update d es)).Nodup := by
  induction es generalizing d with
  | nil => exact h
  | cons e es ih =>
    refine ih ?_
    rw [keys_set]
    split_ifs with hk
    · exact h
    · simpa [List.nodup_append] using ⟨h, fun a ha hae => hk (hae ▸ ha)⟩

/-- The entries of a dictionary are what can be looked up in it. -/
theorem get?_eq_some_iff {d : Dict κ ν} (h : (keys d).Nodup) {k : κ} {v : ν} :
    get? d k = some v ↔ (k, v) ∈ d := by
  induction d with
  | nil => simp
  | cons e d ih =>
    obtain ⟨j, w⟩ := e
    obtain ⟨hj, hd⟩ := List.nodup_cons.1 h
    by_cases hjk : j = k
    · subst hjk
      have hnot : (j, v) ∉ d := fun hmem => hj (List.mem_map.2 ⟨(j, v), hmem, rfl⟩)
      simp [get?, hnot, eq_comm]
    · have hkj : k ≠ j := fun h => hjk h.symm
      simp [get?, hjk, hkj, ih hd]

/-- What is looked up is an entry. -/
theorem mem_of_get? {d : Dict κ ν} {k : κ} {v : ν} (h : d.get? k = some v) : (k, v) ∈ d := by
  induction d with
  | nil => cases h
  | cons e d ih =>
    obtain ⟨j, w⟩ := e
    by_cases hjk : j = k
    · rw [get?, if_pos hjk] at h
      rw [hjk, Option.some.inj h]
      exact List.mem_cons_self ..
    · rw [get?, if_neg hjk] at h
      exact List.mem_cons_of_mem _ (ih h)

theorem mem_ofEntries_iff {es : List (κ × ν)} {k : κ} {v : ν} :
    (k, v) ∈ ofEntries es ↔ get? (ofEntries es) k = some v := by
  have hnil : (keys ([] : Dict κ ν)).Nodup := List.nodup_nil
  exact (get?_eq_some_iff (nodup_keys_update hnil es)).symm

theorem ofEntries_concat (es : List (κ × ν)) (e : κ × ν) :
    ofEntries (es ++ [e]) = (ofEntries es).set e.1 e.2 := update_append _ _ _

/-- Entries of different keys are a dictionary already. -/
theorem ofEntries_of_nodup {es : List (κ × ν)} (h : (keys es).Nodup) : ofEntries es = es := by
  induction es using List.reverseRecOn with
  | nil => rfl
  | append_singleton es e ih =>
    obtain ⟨hes, -, hnew⟩ : (keys es).Nodup ∧ [e.1].Nodup ∧ ∀ k ∈ keys es, k ≠ e.1 := by
      simpa [keys, List.nodup_append] using h
    rw [ofEntries_concat, ih hes, set_eq_append fun hmem => hnew _ hmem rfl]

/-- An entry is the assigned one or an old one. -/
theorem mem_set {d : Dict κ ν} {k : κ} {v : ν} {e : κ × ν} (h : e ∈ d.set k v) :
    e = (k, v) ∨ e ∈ d := by
  induction d with
  | nil => exact .inl (List.mem_singleton.1 h)
  | cons e' d ih =>
    obtain ⟨j, w⟩ := e'
    rw [set] at h
    split_ifs at h
    · exact (List.mem_cons.1 h).imp_right (List.mem_cons_of_mem _)
    · rcases List.mem_cons.1 h with rfl | h
      · exact .inr List.mem_cons_self
      · exact (ih h).imp_right (List.mem_cons_of_mem _)

theorem mem_update {d : Dict κ ν} {es : List (κ × ν)} {e : κ × ν} (h : e ∈ d.update es) :
    e ∈ d ∨ e ∈ es := by
  induction es generalizing d with
  | nil => exact .inl h
  | cons e' es ih =>
    rcases ih h with hset | hmem
    · rcases mem_set hset with rfl | hmem
      · exact .inr List.mem_cons_self
      · exact .inl hmem
    · exact .inr (List.mem_cons_of_mem _ hmem)

theorem mem_of_mem_ofEntries {es : List (κ × ν)} {e : κ × ν} (h : e ∈ ofEntries es) : e ∈ es :=
  (mem_update h).resolve_left List.not_mem_nil

/-- A function may be applied to the values before or after. -/
theorem ofEntries_map {ν' : Type*} (f : ν → ν') (es : List (κ × ν)) :
    ofEntries (es.map fun e => (e.1, f e.2)) = (ofEntries es).map fun e => (e.1, f e.2) := by
  have hset : ∀ (d : Dict κ ν) (k : κ) (v : ν),
      set (d.map fun e => (e.1, f e.2)) k (f v) = (set d k v).map fun e => (e.1, f e.2) := by
    intro d k v
    induction d with
    | nil => rfl
    | cons e d ih =>
      rw [List.map_cons, set, set]
      split_ifs
      · rfl
      · rw [List.map_cons, ih]
  induction es using List.reverseRecOn with
  | nil => rfl
  | append_singleton es e ih =>
    rw [List.map_append, List.map_singleton, ofEntries_concat, ofEntries_concat, ih, hset]

/-- The last entry of a key is the one that is looked up. -/
theorem get?_ofEntries (es : List (κ × ν)) (k : κ) : (ofEntries es).get? k =
    es.reverse.findSome? fun e => if e.1 = k then some e.2 else none := by
  induction es using List.reverseRecOn with
  | nil => rfl
  | append_singleton es e ih =>
    rw [ofEntries_concat, get?_set, ih, List.reverse_concat, List.findSome?_cons]
    split_ifs <;> rfl

theorem contains_iff {d : Dict κ ν} {k : κ} : d.contains k = true ↔ k ∈ keys d := by
  induction d with
  | nil => simp [contains, keys]
  | cons e d ih =>
    obtain ⟨j, w⟩ := e
    unfold contains keys at ih ⊢
    rw [List.map_cons, List.mem_cons, get?]
    by_cases hjk : j = k
    · simp [hjk]
    · rw [if_neg hjk, ih]
      exact (or_iff_right (Ne.symm hjk)).symm

theorem get?_eq_none {d : Dict κ ν} {k : κ} (h : k ∉ keys d) : d.get? k = none :=
  Option.not_isSome_iff_eq_none.1 (mt contains_iff.1 h)

/-- Entries may be dropped by their keys. -/
theorem get?_filter (d : Dict κ ν) (p : κ → Bool) (k : κ) :
    Dict.get? (d.filter (p ·.1)) k = if p k then d.get? k else none := by
  induction d with
  | nil => simp
  | cons e d ih =>
    obtain ⟨j, w⟩ := e
    by_cases hj : p j = true
    · rw [List.filter_cons_of_pos (by exact hj), get?, get?, ih]
      by_cases hjk : j = k
      · rw [if_pos hjk, if_pos hjk, if_pos (hjk ▸ hj)]
      · rw [if_neg hjk, if_neg hjk]
    · rw [List.filter_cons_of_neg (by exact hj), ih, get?]
      by_cases hjk : j = k
      · rw [if_neg (hjk ▸ hj), if_neg (hjk ▸ hj)]
      · rw [if_neg hjk]

theorem filter_set {d : Dict κ ν} {k : κ} {v : ν} {p : κ → Bool} (hk : p k = true) :
    (d.set k v).filter (p ·.1) = Dict.set (d.filter (p ·.1)) k v := by
  induction d with
  | nil => simp [set, hk]
  | cons e d ih =>
    obtain ⟨j, w⟩ := e
    by_cases hj : p j = true
    · rw [List.filter_cons_of_pos (by exact hj), set, set]
      split_ifs with heq
      · exact List.filter_cons_of_pos (by exact hk)
      · rw [List.filter_cons_of_pos (by exact hj), ih]
    · have hne : j ≠ k := fun heq => hj (heq ▸ hk)
      rw [List.filter_cons_of_neg (by exact hj), set, if_neg hne, List.filter_cons_of_neg (by exact hj), ih]

/-- Assignments to other keys leave a key as it is. -/
theorem get?_update_of_not_mem {d : Dict κ ν} {es : List (κ × ν)} {k : κ} (h : k ∉ es.map Prod.fst) :
    (d.update es).get? k = d.get? k := by
  induction es generalizing d with
  | nil => rfl
  | cons e es ih =>
    rw [List.map_cons, List.mem_cons, not_or] at h
    rw [update_cons, ih h.2, get?_set, if_neg fun he => h.1 he.symm]

/-- If every assignment to a key gives the same value, the key has that value. -/
theorem get?_update_of_forall {d : Dict κ ν} {es : List (κ × ν)} {k : κ} {v : ν}
    (hex : d.get? k = some v ∨ (k, v) ∈ es) (hd : ∀ w, d.get? k = some w → w = v)
    (hes : ∀ w, (k, w) ∈ es → w = v) : (d.update es).get? k = some v := by
  have hsome : ((d.update es).get? k).isSome :=
    get?_update_isSome (hex.imp (fun h => by simp [h]) fun h => ⟨v, h⟩)
  obtain ⟨w, hw⟩ := Option.isSome_iff_exists.mp hsome
  rw [hw]
  rcases get?_update_cases hw with h | h
  · rw [hd w h]
  · rw [hes w h]

/-- Assignments that agree on a key decide its value, whatever it was before. -/
theorem get?_update_of_mem {d : Dict κ ν} {es : List (κ × ν)} {k : κ} {v : ν} (hmem : (k, v) ∈ es)
    (hes : ∀ w, (k, w) ∈ es → w = v) : (d.update es).get? k = some v := by
  induction es generalizing d with
  | nil => cases hmem
  | cons e es ih =>
    by_cases hlater : ∃ w, (k, w) ∈ es
    · obtain ⟨w, hw⟩ := hlater
      obtain rfl := hes w (List.mem_cons_of_mem _ hw)
      exact ih hw fun w' hw' => hes w' (List.mem_cons_of_mem _ hw')
    · have hfirst : e = (k, v) := by
        rcases List.mem_cons.1 hmem with h | h
        · exact h.symm
        · exact absurd ⟨v, h⟩ hlater
      subst hfirst
      have hset : (d.set k v).get? k = some v := by rw [get?_set, if_pos rfl]
      refine @get?_update_of_forall κ ν _ (d.set k v) es k v (.inl hset) (fun w hw => ?_) fun w hw => ?_
      · exact Option.some.inj (hw.symm.trans hset)
      · exact absurd ⟨w, hw⟩ hlater

/-- The entries of a key are the one that is looked up. -/
theorem sum_entries_of_key {d : Dict κ ν} (hd : (keys d).Nodup)
    (k : κ) (count : ν → ℕ) :
    ((d.filter (·.1 = k)).map fun e => count e.2).sum = (d.get? k).elim 0 count := by
  induction d with
  | nil => rfl
  | cons e d ih =>
    obtain ⟨j, v⟩ := e
    obtain ⟨hj, hrest⟩ := List.nodup_cons.1 hd
    by_cases hjk : j = k
    · subst hjk
      have hnone : d.filter (·.1 = j) = [] := by
        refine List.filter_eq_nil_iff.2 fun e he heq => hj (List.mem_map.2 ⟨e, he, ?_⟩)
        simpa using heq
      simp [get?, hnone]
    · simp [get?, hjk, ih hrest]

/-- What is looked up under different keys is what the entries with these keys say. -/
theorem sum_lookups {d : Dict κ ν} (hd : (keys d).Nodup)
    {ks : List κ} (hks : ks.Nodup) (count : ν → ℕ) :
    ((ks.filterMap d.get?).map count).sum = ((d.filter (·.1 ∈ ks)).map fun e => count e.2).sum := by
  induction ks with
  | nil =>
    have hnone : d.filter (·.1 ∈ ([] : List κ)) = [] := List.filter_eq_nil_iff.2 (by simp)
    rw [hnone]
    rfl
  | cons k ks ih =>
    obtain ⟨hk, hrest⟩ := List.nodup_cons.1 hks
    have hsplit : ∀ d : Dict κ ν, ((d.filter (·.1 ∈ k :: ks)).map fun e => count e.2).sum =
        ((d.filter (·.1 = k)).map fun e => count e.2).sum +
          ((d.filter (·.1 ∈ ks)).map fun e => count e.2).sum := by
      intro d
      induction d with
      | nil => rfl
      | cons e d ih =>
        by_cases hek : e.1 = k
        · have hnot : e.1 ∉ ks := hek ▸ hk
          simp only [List.filter_cons, List.mem_cons, hek, hk, true_or, decide_true, if_true,
            List.map_cons, List.sum_cons, decide_false, Bool.false_eq_true, if_false] at ih ⊢
          omega
        · by_cases hmem : e.1 ∈ ks <;>
            simp only [List.filter_cons, List.mem_cons, hek, hmem, or_true, or_self, decide_true,
              if_true, List.map_cons, List.sum_cons, decide_false, Bool.false_eq_true, if_false] at ih ⊢ <;>
            omega
    rw [hsplit, sum_entries_of_key hd, ← ih hrest, List.filterMap_cons]
    cases d.get? k <;> simp

end Dict

end AltrStream.Foundations
