import AltrStream.Registry.Steps

/-! # Lookups in changing lists

A lookup by id or by name finds the same item in a list with other items added,
left out or rewritten, as long as those are not what it looks for.
-/
namespace AltrStream.Registry
open Foundations Python QueryEngine Domain Repository

section
variable {α : Type} {p q : α → Bool} {items : List α} {x : α}

/-- What is found first is found first among the items that stay. -/
theorem find?_filter_of_pos (h : items.find? p = some x) (hq : q x = true) :
    (items.filter q).find? p = some x := by
  induction items with
  | nil => cases h
  | cons a items ih =>
    cases hp : p a with
    | true =>
      rw [List.find?_cons_of_pos hp] at h
      obtain rfl := Option.some.inj h
      rw [List.filter_cons_of_pos hq, List.find?_cons_of_pos hp]
    | false =>
      rw [List.find?_cons_of_neg (by simp [hp])] at h
      cases hqa : q a with
      | true => rw [List.filter_cons_of_pos hqa, List.find?_cons_of_neg (by simp [hp]), ih h]
      | false => rw [List.filter_cons_of_neg (by simp [hqa]), ih h]

theorem find?_filter_of_neg (h : items.find? p = none) : (items.filter q).find? p = none :=
  List.find?_eq_none.2 fun a ha => List.find?_eq_none.1 h a (List.mem_of_mem_filter ha)

/-- Items that are not looked for may be left out. -/
theorem find?_filter_of_forall (h : ∀ a ∈ items, p a = true → q a = true) :
    (items.filter q).find? p = items.find? p := by
  cases hfound : items.find? p with
  | none => exact find?_filter_of_neg hfound
  | some a =>
    exact find?_filter_of_pos hfound
      (h a (List.mem_of_find?_eq_some hfound) (List.find?_some hfound))

theorem find?_map_of_forall {β : Type} {f : α → β} {p' : β → Bool}
    (h : ∀ a ∈ items, p' (f a) = p a) : (items.map f).find? p' = (items.find? p).map f := by
  induction items with
  | nil => rfl
  | cons a items ih =>
    obtain ⟨ha, hrest⟩ := List.forall_mem_cons.1 h
    rw [List.map_cons]
    cases hp : p a with
    | true => rw [List.find?_cons_of_pos (ha.trans hp), List.find?_cons_of_pos hp, Option.map_some]
    | false =>
      rw [List.find?_cons_of_neg (by simp [ha, hp]), List.find?_cons_of_neg (by simp [hp]),
        ih hrest]

end

section
variable {α : Type} (py : Casing) (idOf nameOf : α → String)

/-- By id, or else by name: how validation finds entities and fields. -/
def lookup (items : List α) (id name : String) : Option α :=
  (items.find? (idOf · = id)).or (findByName py nameOf items name)

variable {py idOf nameOf} {items : List α} {id name : String} {x : α} {q : α → Bool}

theorem findByName_filter_of_pos (h : findByName py nameOf items name = some x) (hq : q x = true) :
    findByName py nameOf (items.filter q) name = some x := by
  unfold findByName at h ⊢
  split_ifs at h ⊢ with hname
  rcases Option.or_eq_some_iff.1 h with h | ⟨hnone, h⟩
  · rw [find?_filter_of_pos h hq, Option.some_or]
  · rw [find?_filter_of_neg hnone, Option.none_or]
    rcases Option.or_eq_some_iff.1 h with h | ⟨hnone, h⟩
    · rw [find?_filter_of_pos h hq, Option.some_or]
    · rw [find?_filter_of_neg hnone, Option.none_or, find?_filter_of_pos h hq]

theorem findByName_filter_of_forall
    (h : ∀ a ∈ items, py.clean (nameOf a) = py.clean name → q a = true) :
    findByName py nameOf (items.filter q) name = findByName py nameOf items name := by
  have hexact : ∀ a ∈ items, decide (nameOf a = name) = true → q a = true := by
    intro a ha hname
    exact h a ha (by rw [of_decide_eq_true hname])
  have hlower : ∀ a ∈ items, decide (py.lower (nameOf a) = py.lower name) = true → q a = true := by
    intro a ha hname
    exact h a ha (by rw [Casing.clean, of_decide_eq_true hname, Casing.clean])
  have hclean : ∀ a ∈ items, decide (py.clean (nameOf a) = py.clean name) = true → q a = true :=
    fun a ha hname => h a ha (of_decide_eq_true hname)
  unfold findByName
  rw [find?_filter_of_forall hexact, find?_filter_of_forall hlower, find?_filter_of_forall hclean]

theorem lookup_mem (h : lookup py idOf nameOf items id name = some x) : x ∈ items := by
  rcases Option.or_eq_some_iff.1 h with h | ⟨-, h⟩
  · exact List.mem_of_find?_eq_some h
  · exact (clean_of_findByName h).1

/-- What is found has the id or, but for case and number, the name. -/
theorem lookup_named (h : lookup py idOf nameOf items id name = some x) :
    idOf x = id ∨ py.clean (nameOf x) = py.clean name := by
  rcases Option.or_eq_some_iff.1 h with h | ⟨-, h⟩
  · exact .inl (by simpa using List.find?_some h)
  · exact .inr (clean_of_findByName h).2

theorem lookup_filter_of_pos (h : lookup py idOf nameOf items id name = some x) (hq : q x = true) :
    lookup py idOf nameOf (items.filter q) id name = some x := by
  unfold lookup at h ⊢
  rcases Option.or_eq_some_iff.1 h with h | ⟨hnone, h⟩
  · rw [find?_filter_of_pos h hq, Option.some_or]
  · rw [find?_filter_of_neg hnone, Option.none_or, findByName_filter_of_pos h hq]

theorem lookup_filter_of_forall
    (h : ∀ a ∈ items, idOf a = id ∨ py.clean (nameOf a) = py.clean name → q a = true) :
    lookup py idOf nameOf (items.filter q) id name = lookup py idOf nameOf items id name := by
  unfold lookup
  rw [find?_filter_of_forall fun a ha hid => h a ha (.inl (of_decide_eq_true hid)),
    findByName_filter_of_forall fun a ha hname => h a ha (.inr hname)]

/-- An item with the id is found, if ids are different. -/
theorem lookup_of_id (hnodup : (items.map idOf).Nodup) (hx : x ∈ items) :
    lookup py idOf nameOf items (idOf x) name = some x := by
  have hfound : items.find? (idOf · = idOf x) = some x := by
    cases hfound : items.find? (idOf · = idOf x) with
    | none => simpa using List.find?_eq_none.1 hfound x hx
    | some y =>
      have hid : idOf y = idOf x := by simpa using List.find?_some hfound
      rw [List.inj_on_of_nodup_map hnodup (List.mem_of_find?_eq_some hfound) hx hid]
  rw [lookup, hfound, Option.some_or]

/-- Items are rewritten, but for what they are looked up by. -/
theorem lookup_map {β : Type} {idOf' nameOf' : β → String} {f : α → β}
    (hid : ∀ a ∈ items, idOf' (f a) = idOf a) (hname : ∀ a ∈ items, nameOf' (f a) = nameOf a) :
    lookup py idOf' nameOf' (items.map f) id name =
      (lookup py idOf nameOf items id name).map f := by
  have hfind : ∀ g : String → Bool, (items.map f).find? (fun b => g (nameOf' b)) =
      (items.find? fun a => g (nameOf a)).map f :=
    fun g => find?_map_of_forall fun a ha => by rw [hname a ha]
  unfold lookup findByName
  rw [find?_map_of_forall fun a ha => by rw [hid a ha], Option.map_or]
  congr 1
  split_ifs
  · rfl
  · rw [hfind (decide <| · = name), hfind (decide <| py.lower · = py.lower name),
      hfind (decide <| py.clean · = py.clean name), Option.map_or, Option.map_or]

end

/-! ### Rows of a group, by name -/

section
variable {α : Type} [Keyed α String] (groupOf nameOf : α → String)

/-- The rows of a group, by name. -/
def grouped (t : Table α) (g : String) : List α := sortedBy nameOf (t.rows.filter (groupOf · = g))

variable {groupOf nameOf} {t t' : Table α} {g : String}

theorem mem_grouped {a : α} : a ∈ grouped groupOf nameOf t g ↔ a ∈ t ∧ groupOf a = g := by
  rw [grouped, mem_sortedBy, List.mem_filter, decide_eq_true_iff, Table.mem_rows]

theorem nodup_grouped : ((grouped groupOf nameOf t g).map (Keyed.key : α → String)).Nodup := by
  have hrows := t.nodup.sublist ((List.filter_sublist (p := (groupOf · = g))).map Keyed.key)
  exact (((sortedBy_perm _).map Keyed.key).nodup_iff).2 hrows

theorem grouped_filter (q : α → Bool) :
    grouped groupOf nameOf (t.filter q) g = (grouped groupOf nameOf t g).filter q := by
  rw [grouped, grouped, filter_sortedBy, Table.filter, List.filter_comm]

/-- Without the new rows a group is what it was. -/
theorem grouped_insertAll {as : List α} (h : t.insertAll? as = some t') :
    (grouped groupOf nameOf t' g).filter (Keyed.key · ∉ as.map (Keyed.key : α → String)) =
      grouped groupOf nameOf t g := by
  have hold : t.rows.filter (Keyed.key · ∉ as.map (Keyed.key : α → String)) = t.rows := by
    refine List.filter_eq_self.2 fun b hb => ?_
    rw [decide_eq_true_iff, List.mem_map]
    rintro ⟨a, ha, hkey⟩
    exact (Table.nodup_of_insertAll? h).2 a ha b hb hkey.symm
  have hnew : as.filter (Keyed.key · ∉ as.map (Keyed.key : α → String)) = [] := by
    refine List.filter_eq_nil_iff.2 fun a ha => ?_
    rw [decide_eq_true_iff, not_not]
    exact List.mem_map_of_mem ha
  rw [grouped, grouped, filter_sortedBy, Table.rows_of_insertAll? h, List.filter_comm,
    List.filter_append, hold, hnew, List.append_nil]

section
variable {k : String} {f : α → α} {hf : ∀ a, (Keyed.key (f a) : String) = Keyed.key a}

/-- Without the rewritten row a group is what it was. -/
theorem grouped_modify_filter :
    (grouped groupOf nameOf (t.modify k f hf) g).filter (Keyed.key · ≠ k) =
      (grouped groupOf nameOf t g).filter (Keyed.key · ≠ k) := by
  have hrows : ∀ rows : List α, (rows.map fun a => if Keyed.key a = k then f a else a).filter
      (Keyed.key · ≠ k) = rows.filter (Keyed.key · ≠ k) := by
    intro rows
    induction rows with
    | nil => rfl
    | cons a rows ih =>
      rw [List.map_cons]
      by_cases hk : Keyed.key a = k
      · rw [if_pos hk, List.filter_cons_of_neg (by simp [hf, hk]),
          List.filter_cons_of_neg (by simp [hk]), ih]
      · rw [if_neg hk, List.filter_cons_of_pos (by simp [hk]),
          List.filter_cons_of_pos (by simp [hk]), ih]
  rw [grouped, grouped, filter_sortedBy, filter_sortedBy, Table.modify, Table.map,
    List.filter_comm, hrows, List.filter_comm]

/-- A row rewritten under its name stays in its place. -/
theorem grouped_modify_map (hgroup : ∀ a, groupOf (f a) = groupOf a)
    (hname : ∀ a ∈ t, Keyed.key a = k → nameOf (f a) = nameOf a) :
    grouped groupOf nameOf (t.modify k f hf) g =
      (grouped groupOf nameOf t g).map fun a => if Keyed.key a = k then f a else a := by
  have hkept : ∀ a ∈ t, nameOf (if Keyed.key a = k then f a else a) = nameOf a := by
    intro a ha
    split_ifs with hk
    · exact hname a ha hk
    · rfl
  have hgroups : (fun a => decide (groupOf a = g)) ∘ (fun a => if Keyed.key a = k then f a else a) =
      fun a => decide (groupOf a = g) := by
    funext a
    by_cases hk : Keyed.key a = k <;> simp [hk, hgroup]
  rw [grouped, grouped, Table.modify, Table.map, List.filter_map, hgroups, sortedBy, sortedBy]
  symm
  refine List.map_insertionSort _ _ _ _ fun a ha b hb => ?_
  unfold KeyLE
  rw [hkept a (List.mem_of_mem_filter ha), hkept b (List.mem_of_mem_filter hb)]

end

variable {py : Casing} {id name : String} {x : α}

/-- New rows are not found in the place of what was found. -/
theorem lookup_insertAll {as : List α} (hinsert : t.insertAll? as = some t')
    (h : lookup py Keyed.key nameOf (grouped groupOf nameOf t g) id name = some x)
    (hnew : ∀ a ∈ as, groupOf a = g →
      Keyed.key a ≠ id ∧ (Keyed.key x = id ∨ py.clean (nameOf a) ≠ py.clean name)) :
    lookup py Keyed.key nameOf (grouped groupOf nameOf t' g) id name = some x := by
  obtain ⟨hx, hxg⟩ := mem_grouped.1 (lookup_mem h)
  by_cases hid : Keyed.key x = id
  · rw [← hid]
    exact lookup_of_id nodup_grouped
      (mem_grouped.2 ⟨(Table.mem_of_insertAll? hinsert).2 (.inl hx), hxg⟩)
  · rw [← grouped_insertAll hinsert, lookup_filter_of_forall] at h
    · exact h
    · intro a ha hnamed
      obtain ⟨hmem, hgroup⟩ := mem_grouped.1 ha
      rw [decide_eq_true_iff, List.mem_map]
      rintro ⟨b, hb, hkey⟩
      have heq : b = a :=
        Table.eq_of_key_eq ((Table.mem_of_insertAll? hinsert).2 (.inr hb)) hmem hkey
      obtain ⟨hid', hname⟩ := hnew b hb (heq ▸ hgroup)
      exact hnamed.elim (heq ▸ hid') (heq ▸ hname.resolve_left hid)

/-- A row that is found stays so while another is deleted. -/
theorem lookup_filter {q : α → Bool}
    (h : lookup py Keyed.key nameOf (grouped groupOf nameOf t g) id name = some x)
    (hq : q x = true) :
    lookup py Keyed.key nameOf (grouped groupOf nameOf (t.filter q) g) id name = some x := by
  rw [grouped_filter]
  exact lookup_filter_of_pos h hq

/-- A row is rewritten that is found by its id, keeps its name, or is not looked for by name. -/
theorem lookup_modify {k : String} {f : α → α}
    (hf : ∀ a, (Keyed.key (f a) : String) = Keyed.key a) (hgroup : ∀ a, groupOf (f a) = groupOf a)
    (h : lookup py Keyed.key nameOf (grouped groupOf nameOf t g) id name = some x)
    (hcase : id = Keyed.key x ∨ (∀ a ∈ t, Keyed.key a = k → nameOf (f a) = nameOf a) ∨
      ∀ a ∈ t, Keyed.key a = k → py.clean (nameOf a) ≠ py.clean name ∧
        py.clean (nameOf (f a)) ≠ py.clean name) :
    lookup py Keyed.key nameOf (grouped groupOf nameOf (t.modify k f hf) g) id name =
      some (if Keyed.key x = k then f x else x) := by
  have hx := lookup_mem h
  by_cases hid : id = Keyed.key x
  · have hkey : Keyed.key (if Keyed.key x = k then f x else x) = id := by
      split_ifs <;> simp [hf, hid]
    rw [← hkey]
    refine lookup_of_id nodup_grouped (mem_grouped.2 ⟨?_, ?_⟩)
    · rw [Table.mem_modify]
      split_ifs with hk
      · exact .inr ⟨x, (mem_grouped.1 hx).1, hk, rfl⟩
      · exact .inl ⟨(mem_grouped.1 hx).1, hk⟩
    · split_ifs
      · exact (hgroup x).trans (mem_grouped.1 hx).2
      · exact (mem_grouped.1 hx).2
  · rcases hcase with hid' | hname | hname
    · exact absurd hid' hid
    · have hmap : lookup py Keyed.key nameOf ((grouped groupOf nameOf t g).map
          fun a => if Keyed.key a = k then f a else a) id name =
          (lookup py Keyed.key nameOf (grouped groupOf nameOf t g) id name).map
            fun a => if Keyed.key a = k then f a else a := by
        apply lookup_map
        · intro a _
          split_ifs <;> simp [hf]
        · intro a ha
          split_ifs with hk
          · exact hname a (mem_grouped.1 ha).1 hk
          · rfl
      rw [grouped_modify_map hgroup hname, hmap, h, Option.map_some]
    · -- nothing with the key is looked for, neither before nor after
      have hnone : ∀ a ∈ t, groupOf a = g → Keyed.key a ≠ id := by
        rintro a ha hg rfl
        have hmem : a ∈ grouped groupOf nameOf t g := mem_grouped.2 ⟨ha, hg⟩
        have hself : lookup py Keyed.key nameOf (grouped groupOf nameOf t g) (Keyed.key a) name =
            some a := lookup_of_id nodup_grouped hmem
        rw [h] at hself
        exact hid (congrArg Keyed.key (Option.some.inj hself)).symm
      have hxk : Keyed.key x ≠ k := by
        intro hk
        rcases lookup_named h with hkey | hclean
        · exact hid hkey.symm
        · exact (hname x (mem_grouped.1 hx).1 hk).1 hclean
      rw [if_neg hxk, ← h, ← lookup_filter_of_forall (q := (Keyed.key · ≠ k)),
        grouped_modify_filter, lookup_filter_of_forall]
      · intro a ha hnamed
        obtain ⟨hmem, hg⟩ := mem_grouped.1 ha
        rw [decide_eq_true_iff]
        exact fun hk => hnamed.elim (hnone a hmem hg) (hname a hmem hk).1
      · intro a' ha' hnamed
        obtain ⟨hmem, hg⟩ := mem_grouped.1 ha'
        rw [decide_eq_true_iff]
        intro hk'
        rcases (Table.mem_modify hf).1 hmem with ⟨-, hk⟩ | ⟨a, ha, hk, rfl⟩
        · exact hk hk'
        · refine hnamed.elim (fun hkey => hnone a ha ((hgroup a).symm.trans hg) ?_) (hname a ha hk).2
          exact (hf a).symm.trans hkey

end

theorem entityFor_eq (py : Casing) (model : LogicalModel) (em : EntityMapping) :
    entityFor py model em = lookup py (·.id) (·.name) model.entities em.logicalEntityId
      em.logicalEntityName := rfl

theorem fieldFor_eq (py : Casing) (entity : LogicalEntity) (fm : FieldMapping) :
    fieldFor py entity fm = lookup py (·.id) (·.name) entity.fields fm.logicalFieldId
      fm.logicalFieldName := rfl

end AltrStream.Registry
