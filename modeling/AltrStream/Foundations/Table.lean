import Mathlib.Data.List.Nodup

/-! # Tables with a primary key

A table is a list of rows, in insertion order, whose keys are pairwise
different. Inserting a row with a key that is taken fails.
-/
namespace AltrStream.Foundations

/-- What a row is identified by. -/
class Keyed (α : Type*) (κ : outParam (Type*)) where
  key : α → κ

structure Table (α : Type*) {κ : Type*} [Keyed α κ] where
  rows : List α
  nodup : (rows.map Keyed.key).Nodup

namespace Table

variable {α κ : Type*} [Keyed α κ]

instance : Membership α (Table α) := ⟨fun t a => a ∈ t.rows⟩

@[simp] theorem mem_rows {t : Table α} {a : α} : a ∈ t.rows ↔ a ∈ t := Iff.rfl

instance (t : Table α) (p : α → Prop) [DecidablePred p] : Decidable (∀ a ∈ t, p a) :=
  inferInstanceAs (Decidable (∀ a ∈ t.rows, p a))

def empty : Table α := ⟨[], List.nodup_nil⟩

@[simp] theorem not_mem_empty {a : α} : a ∉ (empty : Table α) := List.not_mem_nil

theorem eq_of_key_eq {t : Table α} {a b : α} (ha : a ∈ t) (hb : b ∈ t)
    (h : Keyed.key a = Keyed.key b) : a = b := List.inj_on_of_nodup_map t.nodup ha hb h

def filter (t : Table α) (p : α → Bool) : Table α where
  rows := t.rows.filter p
  nodup := t.nodup.sublist (List.filter_sublist.map _)

@[simp] theorem mem_filter {t : Table α} {p : α → Bool} {a : α} :
    a ∈ t.filter p ↔ a ∈ t ∧ p a = true := List.mem_filter

/-- Rows are rewritten without touching their keys. -/
def map (t : Table α) (f : α → α) (hf : ∀ a, (Keyed.key (f a) : κ) = Keyed.key a) : Table α where
  rows := t.rows.map f
  nodup := by
    rw [List.map_map, show Keyed.key ∘ f = Keyed.key from funext hf]
    exact t.nodup

@[simp] theorem mem_map {t : Table α} {f : α → α} {hf : ∀ a, (Keyed.key (f a) : κ) = Keyed.key a}
    {b : α} : b ∈ t.map f hf ↔ ∃ a ∈ t, f a = b := List.mem_map

variable [DecidableEq κ]

def find? (t : Table α) (k : κ) : Option α := t.rows.find? fun a => Keyed.key a = k

theorem find?_eq_some {t : Table α} {k : κ} {a : α} :
    t.find? k = some a ↔ a ∈ t ∧ Keyed.key a = k := by
  constructor
  · intro h
    exact ⟨List.mem_of_find?_eq_some h, by simpa using List.find?_some h⟩
  · rintro ⟨ha, rfl⟩
    cases hfound : t.find? (Keyed.key a) with
    | none => simpa using List.find?_eq_none.1 hfound a ha
    | some b =>
      have hkey : Keyed.key b = Keyed.key a := by simpa using List.find?_some hfound
      rw [eq_of_key_eq (List.mem_of_find?_eq_some hfound) ha hkey]

/-- `none` if the key is taken. -/
def insert? (t : Table α) (a : α) : Option (Table α) :=
  if h : Keyed.key a ∈ t.rows.map Keyed.key then none
  else some ⟨t.rows ++ [a], by
    rw [List.map_append, List.nodup_append]
    exact ⟨t.nodup, List.nodup_singleton _, fun _ hb _ hc hbc => h (by
      rw [List.map_singleton, List.mem_singleton] at hc
      exact hc ▸ hbc ▸ hb)⟩⟩

theorem rows_of_insert? {t t' : Table α} {a : α} (h : t.insert? a = some t') :
    t'.rows = t.rows ++ [a] := by
  unfold insert? at h
  split_ifs at h
  rw [← Option.some.inj h]

theorem mem_of_insert? {t t' : Table α} {a b : α} (h : t.insert? a = some t') :
    b ∈ t' ↔ b ∈ t ∨ b = a := by
  rw [← mem_rows, rows_of_insert? h, List.mem_append, List.mem_singleton, mem_rows]

def insertAll? (t : Table α) : List α → Option (Table α)
  | [] => some t
  | a :: as => (t.insert? a).bind fun t' => t'.insertAll? as

theorem rows_of_insertAll? {t t' : Table α} {as : List α} (h : t.insertAll? as = some t') :
    t'.rows = t.rows ++ as := by
  induction as generalizing t with
  | nil => rw [← Option.some.inj h, List.append_nil]
  | cons a as ih =>
    obtain ⟨t₁, h₁, h⟩ := Option.bind_eq_some_iff.1 h
    rw [ih h, rows_of_insert? h₁, List.append_assoc, List.singleton_append]

theorem mem_of_insertAll? {t t' : Table α} {as : List α} {b : α} (h : t.insertAll? as = some t') :
    b ∈ t' ↔ b ∈ t ∨ b ∈ as := by
  rw [← mem_rows, rows_of_insertAll? h, List.mem_append, mem_rows]

/-- Inserted rows have keys of their own. -/
theorem nodup_of_insertAll? {t t' : Table α} {as : List α} (h : t.insertAll? as = some t') :
    (as.map (Keyed.key : α → κ)).Nodup ∧ ∀ a ∈ as, ∀ b ∈ t, (Keyed.key b : κ) ≠ Keyed.key a := by
  have hnodup := t'.nodup
  rw [rows_of_insertAll? h, List.map_append, List.nodup_append] at hnodup
  obtain ⟨-, has, hnew⟩ := hnodup
  exact ⟨has, fun a ha b hb => hnew _ (List.mem_map_of_mem hb) _ (List.mem_map_of_mem ha)⟩

theorem insertAll?_singleton (t : Table α) (a : α) : t.insertAll? [a] = t.insert? a := by
  unfold insertAll?
  cases t.insert? a <;> rfl

theorem key_ne_of_insert? {t t' : Table α} {a b : α} (h : t.insert? a = some t') (hb : b ∈ t) :
    (Keyed.key b : κ) ≠ Keyed.key a := by
  rw [← insertAll?_singleton] at h
  exact (nodup_of_insertAll? h).2 a List.mem_cons_self b hb

/-- The row with the key is rewritten without touching its key. -/
def modify (t : Table α) (k : κ) (f : α → α) (hf : ∀ a, (Keyed.key (f a) : κ) = Keyed.key a) :
    Table α :=
  t.map (fun a => if Keyed.key a = k then f a else a) fun a => by split_ifs <;> simp [hf]

theorem mem_modify {t : Table α} {k : κ} {f : α → α}
    (hf : ∀ a, (Keyed.key (f a) : κ) = Keyed.key a) {b : α} :
    b ∈ t.modify k f hf ↔ (b ∈ t ∧ Keyed.key b ≠ k) ∨ ∃ a ∈ t, Keyed.key a = k ∧ f a = b := by
  simp only [modify, mem_map]
  constructor
  · rintro ⟨a, ha, hb⟩
    split_ifs at hb with hk
    · exact .inr ⟨a, ha, hk, hb⟩
    · exact .inl ⟨hb ▸ ha, hb ▸ hk⟩
  · rintro (⟨hb, hk⟩ | ⟨a, ha, hk, hb⟩)
    · exact ⟨b, hb, if_neg hk⟩
    · exact ⟨a, ha, (if_pos hk).trans hb⟩

theorem modify_modify (t : Table α) (k : κ) {f g : α → α}
    (hf : ∀ a, (Keyed.key (f a) : κ) = Keyed.key a) (hg : ∀ a, (Keyed.key (g a) : κ) = Keyed.key a) :
    (t.modify k f hf).modify k g hg = t.modify k (g ∘ f) fun a => (hg _).trans (hf a) := by
  simp only [modify, map, List.map_map, Table.mk.injEq]
  congr 1
  funext a
  by_cases hk : Keyed.key a = k
  · simp [hk, hf]
  · simp [hk]

end Table

/-! ## References between tables

The rows of one table name rows of another by their keys. Adding rows, rewriting
them and removing children is harmless; a removed parent is harmless exactly if no
child names it.
-/

variable {α β κ κ' : Type*} [Keyed α κ] [Keyed β κ']

/-- Every child names a parent that is there. -/
def Refers (children : Table β) (parentOf : β → κ) (parents : Table α) : Prop :=
  ∀ b ∈ children, ∃ a ∈ parents, Keyed.key a = parentOf b

namespace Refers

variable {children children' : Table β} {parentOf : β → κ} {parents parents' : Table α}

theorem empty : Refers (Table.empty : Table β) parentOf parents :=
  fun _ hb => absurd hb Table.not_mem_empty

/-- The children name nobody new and every parent is still there. -/
theorem of_kept (h : Refers children parentOf parents)
    (hchildren : ∀ b' ∈ children', ∃ b ∈ children, parentOf b = parentOf b')
    (hparents : ∀ a ∈ parents, ∃ a' ∈ parents', (Keyed.key a' : κ) = Keyed.key a) :
    Refers children' parentOf parents' := by
  intro b' hb'
  obtain ⟨b, hb, hsame⟩ := hchildren b' hb'
  obtain ⟨a, ha, hkey⟩ := h b hb
  obtain ⟨a', ha', hkey'⟩ := hparents a ha
  exact ⟨a', ha', hkey'.trans (hkey.trans hsame)⟩

theorem filter (h : Refers children parentOf parents) (p : β → Bool) :
    Refers (children.filter p) parentOf parents := fun b hb => h b (Table.mem_filter.1 hb).1

/-- Parents are removed exactly if no child names one of them. -/
theorem filter_parents_iff (h : Refers children parentOf parents) (keep : α → Bool) :
    Refers children parentOf (parents.filter keep) ↔
      ∀ b ∈ children, ∀ a ∈ parents, Keyed.key a = parentOf b → keep a = true := by
  constructor
  · intro hkept b hb a ha hkey
    obtain ⟨a', ha', hkey'⟩ := hkept b hb
    obtain ⟨ha', hkeep⟩ := Table.mem_filter.1 ha'
    rwa [Table.eq_of_key_eq ha ha' (hkey.trans hkey'.symm)]
  · intro hkeep b hb
    obtain ⟨a, ha, hkey⟩ := h b hb
    exact ⟨a, Table.mem_filter.2 ⟨ha, hkeep b hb a ha hkey⟩, hkey⟩

/-- Rewriting the parents keeps their keys. -/
theorem map_parents_iff {f : α → α} (hf : ∀ a, (Keyed.key (f a) : κ) = Keyed.key a) :
    Refers children parentOf (parents.map f hf) ↔ Refers children parentOf parents := by
  simp only [Refers, Table.mem_map, exists_exists_and_eq_and, hf]

theorem map_children_iff {g : β → β} (hg : ∀ b, (Keyed.key (g b) : κ') = Keyed.key b)
    (hparent : ∀ b, parentOf (g b) = parentOf b) :
    Refers (children.map g hg) parentOf parents ↔ Refers children parentOf parents := by
  simp only [Refers, Table.mem_map, forall_exists_index, and_imp, forall_apply_eq_imp_iff₂, hparent]

section
variable [DecidableEq κ]

theorem modify_parents_iff {k : κ} {f : α → α}
    (hf : ∀ a, (Keyed.key (f a) : κ) = Keyed.key a) :
    Refers children parentOf (parents.modify k f hf) ↔ Refers children parentOf parents :=
  map_parents_iff _

/-- The parent with a key is removed exactly if no child names it. -/
theorem remove_iff (h : Refers children parentOf parents) (k : κ) :
    Refers children parentOf (parents.filter fun a => Keyed.key a ≠ k) ↔
      ∀ b ∈ children, parentOf b ≠ k := by
  rw [h.filter_parents_iff]
  constructor
  · intro hkeep b hb
    obtain ⟨a, ha, hkey⟩ := h b hb
    simpa [hkey] using hkeep b hb a ha hkey
  · intro hne b hb a _ hkey
    simpa [hkey] using hne b hb

theorem insert_parents {as : List α} (h : Refers children parentOf parents)
    (hinsert : parents.insertAll? as = some parents') : Refers children parentOf parents' :=
  h.of_kept (fun b hb => ⟨b, hb, rfl⟩)
    fun a ha => ⟨a, (Table.mem_of_insertAll? hinsert).2 (.inl ha), rfl⟩

end

section
variable [DecidableEq κ']

theorem modify_children_iff {k : κ'} {g : β → β}
    (hg : ∀ b, (Keyed.key (g b) : κ') = Keyed.key b)
    (hparent : ∀ b, parentOf (g b) = parentOf b) :
    Refers (children.modify k g hg) parentOf parents ↔ Refers children parentOf parents := by
  refine map_children_iff _ fun b => ?_
  split_ifs
  · exact hparent b
  · rfl

/-- Children are added exactly if their parents are there. -/
theorem insertAll?_iff {bs : List β} (hinsert : children.insertAll? bs = some children') :
    Refers children' parentOf parents ↔
      Refers children parentOf parents ∧ ∀ b ∈ bs, ∃ a ∈ parents, Keyed.key a = parentOf b := by
  unfold Refers
  simp only [Table.mem_of_insertAll? hinsert]
  constructor
  · exact fun h => ⟨fun b hb => h b (.inl hb), fun b hb => h b (.inr hb)⟩
  · rintro ⟨hold, hnew⟩ b (hb | hb)
    · exact hold b hb
    · exact hnew b hb

theorem insert?_iff {b : β} (hinsert : children.insert? b = some children') :
    Refers children' parentOf parents ↔
      Refers children parentOf parents ∧ ∃ a ∈ parents, Keyed.key a = parentOf b := by
  rw [← Table.insertAll?_singleton] at hinsert
  rw [insertAll?_iff hinsert, List.forall_mem_singleton]

end

end Refers

end AltrStream.Foundations
