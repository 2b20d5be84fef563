import AltrStream.Planning.ComparatorOrder

/-! # The federated comparator as a total preorder

Rows from several sources mix types in one logical field. The comparator sorts them exactly when
every value can be compared and no text of another type contradicts the order of its own.
-/
namespace AltrStream.Planning
open Foundations Python QueryEngine SourceValue

/-- On the items of `s` the comparison raises nothing and is a total preorder: it is reflexive, it
reverses when its arguments are exchanged and it is transitive. -/
structure PreordersOn {α : Type} (comparison : α → α → Except Raised Ordering)
    (cmp : α → α → Ordering) (s : Set α) : Prop where
  returns : ∀ a ∈ s, ∀ b ∈ s, comparison a b = .ok (cmp a b)
  refl : ∀ a ∈ s, cmp a a = .eq
  consistent : ConsistentOn cmp s

/-- Values of `s` and NULL are in a total preorder with NULL lowest, and so are the rows made of
them, whatever they are sorted by; the sort returns them in this order, however they arrive. -/
structure FederatedPreorder (rt : SourceRuntime) (s : Set SourceValue) : Prop where
  values : ∃ cmp, PreordersOn compareSourceValues cmp (cellsOf s)
  nullLowest : ∀ v ∈ s, compareSourceValues none (some v) = .ok .lt
  rows : ∀ (ir : AltrQueryIR) (rows : List (Row SourceValue)),
    (∀ row ∈ rows, ∀ name, row.cell name ∈ cellsOf s) →
      ∃ cmp, PreordersOn (compareSourceRows rt.py (aliasMap rt.py ir.projection) (sortSpecs ir)) cmp
          {row | row ∈ rows} ∧
        ∀ rows', rows'.Perm rows → (rt.sort cmp rows').Pairwise (cmp · · ≠ .gt)

/-- The values compare, and no text of another kind lies between two that are ordered otherwise. -/
structure Orderly (s : Set SourceValue) : Prop where
  printable : Printable s
  between : NoTextBetween kind position textOf s

theorem ConsistentOn.preordersOn {α : Type} {comparison : α → α → Except Raised Ordering}
    {cmp : α → α → Ordering} {s : Set α} (h : ConsistentOn cmp s)
    (hreturns : ∀ a ∈ s, ∀ b ∈ s, comparison a b = .ok (cmp a b)) : PreordersOn comparison cmp s where
  returns := hreturns
  refl _ ha := h.self ha
  consistent := h

section
variable {s : Set SourceValue}

theorem Orderly.values (h : Orderly s) :
    PreordersOn compareSourceValues (missingFirst compareKinds) (cellsOf s) :=
  ConsistentOn.preordersOn h.between.consistentOn.missingFirst fun _ ha _ hb =>
    h.printable.compareSourceValues ha hb

/-! ### Rows -/

variable {rt : SourceRuntime} {aliases : Dict String String}

theorem sortValue_mem_cellsOf {py : Casing} {row : Row SourceValue}
    (h : ∀ name, row.cell name ∈ cellsOf s) (name : String) :
    sortValue py aliases row name ∈ cellsOf s := by
  intro v hv
  obtain ⟨column, -, hcolumn⟩ := List.exists_of_findSome?_eq_some hv
  exact h column v hcolumn

/-- Without an exception rows are compared as the merger compares them. -/
theorem Printable.compareSourceRows (h : Printable s) (specs : List (FieldPath × Bool))
    {rowA rowB : Row SourceValue} (hA : ∀ name, rowA.cell name ∈ cellsOf s)
    (hB : ∀ name, rowB.cell name ∈ cellsOf s) :
    compareSourceRows rt.py aliases specs rowA rowB =
      .ok (compareRows rt.toRuntime aliases specs rowA rowB) := by
  induction specs with
  | nil => rfl
  | cons spec specs ih =>
    obtain ⟨field, desc⟩ := spec
    have hvalueA : sortValue rt.py aliases rowA field.leaf ∈ cellsOf s :=
      sortValue_mem_cellsOf hA field.leaf
    have hvalueB : sortValue rt.py aliases rowB field.leaf ∈ cellsOf s :=
      sortValue_mem_cellsOf hB field.leaf
    unfold Planning.compareSourceRows compareRows
    rw [h.compareSourceValues hvalueA hvalueB, compareKeys_cons, h.compareValues rt hvalueA hvalueB]
    cases missingFirst compareKinds (sortValue rt.py aliases rowA field.leaf)
        (sortValue rt.py aliases rowB field.leaf) with
    | eq => cases desc <;> exact ih
    | lt => cases desc <;> rfl
    | gt => cases desc <;> rfl

theorem Orderly.consistentOn_compareRows (h : Orderly s) (specs : List (FieldPath × Bool))
    {items : Set (Row SourceValue)} (hitems : ∀ row ∈ items, ∀ name, row.cell name ∈ cellsOf s) :
    ConsistentOn (compareRows rt.toRuntime aliases specs) items := by
  have hvalues : ConsistentOn (compareValues rt.toRuntime) (cellsOf s) :=
    h.values.consistent.congr fun _ ha _ hb => (h.printable.compareValues rt ha hb).symm
  exact ConsistentOn.compareKeys fun spec _ =>
    hvalues.comap fun row hrow => sortValue_mem_cellsOf (hitems row hrow) _

theorem Orderly.rows (h : Orderly s) (ir : AltrQueryIR) {rows : List (Row SourceValue)}
    (hrows : ∀ row ∈ rows, ∀ name, row.cell name ∈ cellsOf s) :
    PreordersOn (compareSourceRows rt.py (aliasMap rt.py ir.projection) (sortSpecs ir))
      (rowOrder rt.toRuntime ir) {row | row ∈ rows} :=
  ConsistentOn.preordersOn (h.consistentOn_compareRows (sortSpecs ir) hrows) fun rowA hA rowB hB =>
    h.printable.compareSourceRows (sortSpecs ir) (hrows rowA hA) (hrows rowB hB)

/-- The rows are sorted, in whichever order they arrive. -/
theorem Orderly.pairwise_sort (h : Orderly s) (ir : AltrQueryIR) {rows : List (Row SourceValue)}
    (hrows : ∀ row ∈ rows, ∀ name, row.cell name ∈ cellsOf s) :
    (rt.sort (rowOrder rt.toRuntime ir) rows).Pairwise (rowOrder rt.toRuntime ir · · ≠ .gt) := by
  have hconsistent : ConsistentOn (rowOrder rt.toRuntime ir) {row | row ∈ rows} :=
    h.consistentOn_compareRows (sortSpecs ir) hrows
  rw [rt.sort_stable _ _ hconsistent]
  exact pairwise_stableSort hconsistent

/-! ### The condition is exact -/

theorem FederatedPreorder.printable (h : FederatedPreorder rt s) : Printable s := by
  obtain ⟨cmp, hcmp⟩ := h.values
  have hcell : ∀ a ∈ s, some a ∈ cellsOf s := by
    rintro a ha v ⟨⟩
    exact ha
  constructor
  · intro a ha hnan
    have hreturns := hcmp.returns _ (hcell a ha) _ (hcell a ha)
    rw [compareSourceValues_nan hnan] at hreturns
    cases hreturns
  · intro a ha b hb hkind
    have hreturns := hcmp.returns _ (hcell a ha) _ (hcell b hb)
    rw [compareSourceValues_other hkind] at hreturns
    exact hasText_of_compareTexts hreturns

theorem FederatedPreorder.between (h : FederatedPreorder rt s) :
    NoTextBetween kind position textOf s := by
  have hprintable := h.printable
  obtain ⟨cmp, hcmp⟩ := h.values
  have hcell : ∀ a ∈ s, some a ∈ cellsOf s := by
    rintro a ha v ⟨⟩
    exact ha
  have hvalues : ConsistentOn (fun a b => cmp (some a) (some b)) s := hcmp.consistent.comap hcell
  refine noTextBetween_of_consistentOn (hvalues.congr fun a ha b hb => ?_)
  have hreturns := hcmp.returns _ (hcell a ha) _ (hcell b hb)
  rw [hprintable.compareSourceValues (hcell a ha) (hcell b hb)] at hreturns
  exact (Except.ok.inj hreturns).symm

theorem federatedPreorder_iff (rt : SourceRuntime) (s : Set SourceValue) :
    FederatedPreorder rt s ↔ Orderly s := by
  constructor
  · intro h
    exact ⟨h.printable, h.between⟩
  · intro h
    refine ⟨⟨_, h.values⟩, fun _ _ => rfl, fun ir rows hrows => ⟨_, h.rows ir hrows, ?_⟩⟩
    intro rows' hperm
    exact h.pairwise_sort ir fun row hrow => hrows row (hperm.mem_iff.1 hrow)

end

/-- Source values as Python's objects compare them. -/
def SourceRuntime.stable : SourceRuntime where
  py := .ascii
  lt a b := (SourceValue.lt a b).toOption
  gt a b := (SourceValue.gt a b).toOption
  str := textOf
  sort := stableSort
  perm_sort := perm_stableSort
  sort_stable := Runtime.ints.sort_stable
  traversal l := l
  mem_traversal := Runtime.ints.mem_traversal
  lt_eq _ _ := rfl
  gt_eq _ _ := rfl
  str_eq _ := rfl

/-- 9 is before 10 as a number and 10 before "1a" as a text, but "1a" is before 9. -/
theorem not_federatedPreorder_mixed :
    ¬FederatedPreorder SourceRuntime.stable {.int 9, .int 10, .str "1a"} := by
  intro h
  obtain ⟨cmp, hcmp⟩ := h.values
  have hnine : some (.int 9) ∈ cellsOf ({.int 9, .int 10, .str "1a"} : Set SourceValue) := by
    rintro v ⟨⟩
    exact .inl rfl
  have hten : some (.int 10) ∈ cellsOf ({.int 9, .int 10, .str "1a"} : Set SourceValue) := by
    rintro v ⟨⟩
    exact .inr (.inl rfl)
  have htext : some (.str "1a") ∈ cellsOf ({.int 9, .int 10, .str "1a"} : Set SourceValue) := by
    rintro v ⟨⟩
    exact .inr (.inr rfl)
  have hfirst : Except.ok .lt = Except.ok (cmp (some (.int 9)) (some (.int 10))) :=
    Eq.trans (by decide) (hcmp.returns _ hnine _ hten)
  have hsecond : Except.ok .lt = Except.ok (cmp (some (.int 10)) (some (.str "1a"))) :=
    Eq.trans (by decide) (hcmp.returns _ hten _ htext)
  have hthird : Except.ok .gt = Except.ok (cmp (some (.int 9)) (some (.str "1a"))) :=
    Eq.trans (by decide) (hcmp.returns _ hnine _ htext)
  refine hcmp.consistent.trans _ hnine _ hten _ htext ?_ ?_ (Except.ok.inj hthird).symm
  · rw [← Except.ok.inj hfirst]
    exact Ordering.noConfusion
  · rw [← Except.ok.inj hsecond]
    exact Ordering.noConfusion

end AltrStream.Planning
