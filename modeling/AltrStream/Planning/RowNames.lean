import AltrStream.Foundations.FirstMatch
import AltrStream.Planning.Merger
import AltrStream.QueryEngine.LogicalResolver

/-! # Which column a merged cell comes from

A row of a source comes labelled by the query compiled for it. Here: the columns
that a merged row has under the projected names, for every order of the columns.
-/
namespace AltrStream.Planning
open Foundations Python QueryEngine Domain

section
variable {V : Type} (rt : Runtime V) (fms : List FieldMapping) (ir : AltrQueryIR)

/-- The two dictionaries of an entity mapping. -/
def fieldMapsOf (fms : List FieldMapping) : FieldMaps where
  logicalToPhysical := .ofEntries (fms.map fun fm => (fm.logicalFieldName, fm.physicalFieldName))
  physicalToLogical := .ofEntries (fms.map fun fm => (fm.physicalFieldName, fm.logicalFieldName))

/-- The labels of the compiled query, each with the column that is returned under it: the columns of
the table themselves, or the selections that the logical resolver makes. -/
def labels (columns : List String) : List (String × String) :=
  if ir.isWildcardProjection then columns.map fun c => (c, c)
  else (ir.projection.map (resolveSelection rt.py (fieldMap rt.py fms ir.projection))).map fun s =>
    (outColumn s, s.path.fullPath)

/-- A row that is returned for a record of the table: every label once, in any order. -/
structure Returned (entries : List (String × String)) (record : String → Option V) (row : Row V) :
    Prop where
  nodup : row.keys.Nodup
  labelled : ∀ label, label ∈ row.keys ↔ ∃ column, (label, column) ∈ entries
  filled : ∀ cell ∈ row, ∃ column, (cell.1, column) ∈ entries ∧ cell.2 = record column

/-- The projected names of logical fields, with the mapping of the field that each stands for. -/
def projectedFields : List (String × FieldMapping) :=
  if ir.isWildcardProjection then fms.map fun fm => (fm.logicalFieldName, fm)
  else (ir.projection.filter fun s => !s.path.isNested).flatMap fun s => (fms.filter fun fm =>
    rt.py.lower s.path.root = rt.py.lower fm.logicalFieldName).map (outColumn s, ·)

/-- Whatever the record and the order of its columns, the merged row has under each projected name
the value of the column that the field is mapped to. -/
def RowsFaithful (columns : List String) : Prop :=
  ∀ (record : String → Option V) (row : Row V),
    Returned (labels rt fms ir columns) record row → ∀ field ∈ projectedFields rt fms ir,
      (mergedRow rt ir (fieldMapsOf fms) row).get? field.1 = some (record field.2.physicalFieldName)

/-- The name that a label is kept under. -/
def keptName (label : String) : Option String :=
  normalizedName rt.py (fieldMapsOf fms).physicalToLogical false
    (if ir.isWildcardProjection then [] else rt.traversal (aliasesOf ir).dedup) label

/-- Some label is kept under the name. -/
def isKept (columns : List String) (name : String) : Bool :=
  (labels rt fms ir columns).any fun e => keptName rt fms ir e.1 = some name

/-- The names that a selection is looked for under. -/
def triedNames (sel : FieldSelection) : List String :=
  [outColumn sel, sel.path.leaf, rt.py.lower (outColumn sel), rt.py.lower sel.path.leaf]

/-- The kept name that a column of the merged row is read from. -/
def readFrom (columns : List String) (name : String) : Option String :=
  if ir.isWildcardProjection then if isKept rt fms ir columns name then some name else none
  else ir.projection.reverse.findSome? fun sel =>
    if outColumn sel = name then (triedNames rt sel).find? (isKept rt fms ir columns) else none

/-- Every projected name is read from a kept name under which only the field's column is kept. -/
def ReadsOwnColumn (columns : List String) : Prop :=
  ∀ field ∈ projectedFields rt fms ir, ∃ kept, readFrom rt fms ir columns field.1 = some kept ∧
    ∀ e ∈ labels rt fms ir columns, keptName rt fms ir e.1 = some kept →
      e.2 = field.2.physicalFieldName

end

variable {V : Type} {rt : Runtime V} {fms : List FieldMapping} {ir : AltrQueryIR}
  {columns : List String} {record : String → Option V} {row : Row V}

/-- The row before it is cut to the projection. -/
def keptRow (rt : Runtime V) (fms : List FieldMapping) (ir : AltrQueryIR) (row : Row V) : Row V :=
  .ofEntries (row.filterMap fun cell => (keptName rt fms ir cell.1).map (·, cell.2))

theorem mergedRow_eq (row : Row V) : mergedRow rt ir (fieldMapsOf fms) row =
    if ir.isWildcardProjection then keptRow rt fms ir row
    else formatRow rt.py ir.projection (keptRow rt fms ir row) := by
  unfold mergedRow keptRow keptName normalizeRow
  split_ifs <;> rfl

/-- A kept cell has the value of a column whose label is kept under the name. -/
theorem keptRow_get? (h : Returned (labels rt fms ir columns) record row) {name : String}
    {v : Option V} (hv : (keptRow rt fms ir row).get? name = some v) :
    ∃ e ∈ labels rt fms ir columns, keptName rt fms ir e.1 = some name ∧ v = record e.2 := by
  rcases Dict.get?_update_cases hv with hv | hv
  · cases hv
  · obtain ⟨cell, hcell, hkept⟩ := List.mem_filterMap.1 hv
    obtain ⟨name', hname, heq⟩ := Option.map_eq_some_iff.1 hkept
    obtain ⟨rfl, rfl⟩ := Prod.mk.inj heq
    obtain ⟨column, hcolumn, hvalue⟩ := h.filled cell hcell
    exact ⟨_, hcolumn, hname, hvalue⟩

theorem keptRow_isSome (h : Returned (labels rt fms ir columns) record row) (name : String) :
    ((keptRow rt fms ir row).get? name).isSome = isKept rt fms ir columns name := by
  rw [Bool.eq_iff_iff]
  constructor
  · intro hsome
    obtain ⟨v, hv⟩ := Option.isSome_iff_exists.1 hsome
    obtain ⟨e, he, hkept, -⟩ := keptRow_get? h hv
    exact List.any_eq_true.2 ⟨e, he, decide_eq_true hkept⟩
  · intro hkept
    obtain ⟨e, he, hname⟩ := List.any_eq_true.1 hkept
    obtain ⟨cell, hcell, hlabel⟩ := List.mem_map.1 ((h.labelled e.1).2 ⟨e.2, he⟩)
    refine Dict.get?_update_isSome (.inr ⟨cell.2, List.mem_filterMap.2 ⟨cell, hcell, ?_⟩⟩)
    rw [hlabel, of_decide_eq_true hname]
    rfl

/-- A selection takes the first of its names that is kept. -/
theorem formatCell_eq (h : Returned (labels rt fms ir columns) record row) (sel : FieldSelection) :
    formatCell rt.py (keptRow rt fms ir row) sel =
      (((triedNames rt sel).find? (isKept rt fms ir columns)).bind
        (keptRow rt fms ir row).get?).map (outColumn sel, ·) := by
  have hfirst : ∀ names : List String, names.findSome? (keptRow rt fms ir row).get? =
      (names.find? (isKept rt fms ir columns)).bind (keptRow rt fms ir row).get? := by
    intro names
    induction names with
    | nil => rfl
    | cons name names ih =>
      rw [List.findSome?_cons, List.find?_cons, ← keptRow_isSome h]
      cases hget : (keptRow rt fms ir row).get? name with
      | none => simpa using ih
      | some v => simp [hget]
  rw [← hfirst]
  simp only [formatCell, triedNames, List.findSome?_cons, List.findSome?_nil]
  cases (keptRow rt fms ir row).get? (outColumn sel) <;>
    cases (keptRow rt fms ir row).get? sel.path.leaf <;>
    cases (keptRow rt fms ir row).get? (rt.py.lower (outColumn sel)) <;>
    cases (keptRow rt fms ir row).get? (rt.py.lower sel.path.leaf) <;> rfl

/-- What is read of the merged row is read of the kept row. -/
theorem mergedRow_get? (h : Returned (labels rt fms ir columns) record row) (name : String) :
    (mergedRow rt ir (fieldMapsOf fms) row).get? name =
      (readFrom rt fms ir columns name).bind (keptRow rt fms ir row).get? := by
  rw [mergedRow_eq, readFrom]
  split_ifs with hwild hkept
  · rfl
  · rw [← keptRow_isSome h, Bool.not_eq_true, Option.isSome_eq_false_iff, Option.isNone_iff_eq_none]
      at hkept
    exact hkept
  · rw [formatRow, Dict.get?_ofEntries, ← List.filterMap_reverse]
    induction ir.projection.reverse with
    | nil => rfl
    | cons sel sels ih =>
      rw [List.filterMap_cons, formatCell_eq h, List.findSome?_cons]
      cases hfind : (triedNames rt sel).find? (isKept rt fms ir columns) with
      | none => simpa using ih
      | some kept =>
        have hsome : ((keptRow rt fms ir row).get? kept).isSome := by
          rw [keptRow_isSome h]
          exact List.find?_some hfind
        obtain ⟨v, hv⟩ := Option.isSome_iff_exists.1 hsome
        simp only [Option.bind_some, hv, Option.map_some, List.findSome?_cons]
        by_cases hout : outColumn sel = name
        · simp [hout, hv]
        · simpa [hout] using ih

theorem isKept_of_readFrom {name kept : String} (h : readFrom rt fms ir columns name = some kept) :
    isKept rt fms ir columns kept = true := by
  unfold readFrom at h
  split_ifs at h with hwild hkept
  · exact Option.some.inj h ▸ hkept
  · obtain ⟨sel, -, hsel⟩ := List.exists_of_findSome?_eq_some h
    split_ifs at hsel
    exact List.find?_some hsel

/-! ### Orders of the columns -/

/-- There is a returned row in which a given label comes last, with a given column's value. -/
theorem exists_returned_last {entries : List (String × String)} (record : String → Option V)
    {e : String × String} (he : e ∈ entries) :
    ∃ row : Row V, Returned entries record (row ++ [(e.1, record e.2)]) := by
  have hnil : (Dict.keys ([] : Dict String String)).Nodup := List.nodup_nil
  have hnodup : (Dict.keys (Dict.ofEntries entries)).Nodup := Dict.nodup_keys_update hnil entries
  have hmem : ∀ x ∈ Dict.ofEntries entries, x ∈ entries := by
    intro x hx
    rcases Dict.get?_update_cases (Dict.mem_ofEntries_iff.1 hx) with h | h
    · cases h
    · exact h
  let others := (Dict.ofEntries entries).filter fun x => x.1 ≠ e.1
  refine ⟨others.map fun x => (x.1, record x.2), ?_, fun label => ?_, fun cell hcell => ?_⟩
  · have hothers : (others.map Prod.fst).Nodup := hnodup.sublist (List.filter_sublist.map _)
    simp only [Dict.keys, List.map_append, List.map_map, List.map_cons, List.map_nil]
    refine List.nodup_append.2 ⟨hothers, List.nodup_singleton _, fun a ha b hb => ?_⟩
    obtain ⟨x, hx, rfl⟩ := List.mem_map.1 ha
    rw [List.mem_singleton.1 hb]
    exact of_decide_eq_true (List.mem_filter.1 hx).2
  · simp only [Dict.keys, List.map_append, List.map_map, List.map_cons, List.map_nil, List.mem_append,
      List.mem_singleton]
    constructor
    · rintro (hlabel | rfl)
      · obtain ⟨x, hx, rfl⟩ := List.mem_map.1 hlabel
        exact ⟨x.2, hmem x (List.mem_of_mem_filter hx)⟩
      · exact ⟨e.2, he⟩
    · rintro ⟨column, hcolumn⟩
      by_cases hlabel : label = e.1
      · exact .inr hlabel
      · obtain ⟨v, hv⟩ := Option.isSome_iff_exists.1
          (@Dict.get?_update_isSome _ _ _ [] _ _ (.inr ⟨column, hcolumn⟩))
        refine .inl (List.mem_map.2 ⟨(label, v), List.mem_filter.2 ⟨?_, by simpa using hlabel⟩, rfl⟩)
        exact Dict.mem_ofEntries_iff.2 hv
  · rcases List.mem_append.1 hcell with hcell | hcell
    · obtain ⟨x, hx, rfl⟩ := List.mem_map.1 hcell
      exact ⟨x.2, hmem x (List.mem_of_mem_filter hx), rfl⟩
    · rw [List.mem_singleton.1 hcell]
      exact ⟨e.2, he, rfl⟩

theorem exists_returned (entries : List (String × String)) (record : String → Option V) :
    ∃ row : Row V, Returned entries record row := by
  cases entries with
  | nil => exact ⟨[], List.nodup_nil, by simp [Dict.keys], by simp⟩
  | cons e entries =>
    obtain ⟨row, hrow⟩ := exists_returned_last record (List.mem_cons_self (a := e) (l := entries))
    exact ⟨_, hrow⟩

/-- The last label that is kept under a name decides its value. -/
theorem keptRow_last {e : String × String} {name : String}
    (h : keptName rt fms ir e.1 = some name) (row : Row V) (v : Option V) :
    (keptRow rt fms ir (row ++ [(e.1, v)])).get? name = some v := by
  have hlast : (row ++ [(e.1, v)]).filterMap (fun cell =>
      (keptName rt fms ir cell.1).map (·, cell.2)) =
      row.filterMap (fun cell => (keptName rt fms ir cell.1).map (·, cell.2)) ++ [(name, v)] := by
    rw [List.filterMap_append, List.filterMap_cons, h]
    rfl
  rw [keptRow, hlast, Dict.ofEntries_concat, Dict.get?_set, if_pos rfl]

/-- Merged rows are faithful for every record and every order of the columns exactly when every
projected name is read from a kept name of its own column only. -/
theorem rowsFaithful_iff [Nonempty V] :
    RowsFaithful rt fms ir columns ↔ ReadsOwnColumn rt fms ir columns := by
  obtain ⟨v⟩ := ‹Nonempty V›
  constructor
  · intro h field hfield
    obtain ⟨row, hrow⟩ := exists_returned (labels rt fms ir columns) fun _ => (none : Option V)
    have hget := h _ row hrow field hfield
    rw [mergedRow_get? hrow] at hget
    obtain ⟨kept, hread, -⟩ := Option.bind_eq_some_iff.1 hget
    refine ⟨kept, hread, fun e he hkept => ?_⟩
    by_contra hcolumn
    -- only the column of the other label has a value, and that label comes last
    let record : String → Option V := fun c => if c = e.2 then some v else none
    obtain ⟨row, hrow⟩ := exists_returned_last record he
    have hget := h record _ hrow field hfield
    rw [mergedRow_get? hrow, hread, Option.bind_some, keptRow_last hkept] at hget
    have hown : record field.2.physicalFieldName = none := if_neg (Ne.symm hcolumn)
    have hother : record e.2 = some v := if_pos rfl
    rw [hown, hother] at hget
    cases hget
  · intro h record row hrow field hfield
    obtain ⟨kept, hread, hown⟩ := h field hfield
    have hsome : ((keptRow rt fms ir row).get? kept).isSome := by
      rw [keptRow_isSome hrow]
      exact isKept_of_readFrom hread
    obtain ⟨w, hw⟩ := Option.isSome_iff_exists.1 hsome
    obtain ⟨e, he, hkept, rfl⟩ := keptRow_get? hrow hw
    rw [mergedRow_get? hrow, hread, Option.bind_some, hw, hown e he hkept]

/-- The rows are faithful as they enter the merged result and as they leave it. -/
structure MergeFaithful (rt : Runtime V) (fms : List FieldMapping) (ir : AltrQueryIR)
    (columns : List String) : Prop where
  entering : RowsFaithful rt fms ir columns
  leaving : ∀ plans results, (∀ source ∈ results, source.1 = fieldMapsOf fms) →
    ∀ merged ∈ (mergeFederatedResults rt ir plans results).2, ∃ source ∈ results, ∃ row ∈ source.2,
      ∀ record, Returned (labels rt fms ir columns) record row → ∀ field ∈ projectedFields rt fms ir,
        merged.get? field.1 = some (record field.2.physicalFieldName)

theorem mergeFaithful_iff [Nonempty V] :
    MergeFaithful rt fms ir columns ↔ ReadsOwnColumn rt fms ir columns := by
  rw [← rowsFaithful_iff]
  constructor
  · exact MergeFaithful.entering
  · intro h
    refine ⟨h, fun plans results hmaps merged hmerged => ?_⟩
    obtain ⟨source, hsource, row, hrow, rfl⟩ := mem_mergeFederatedResults rt ir hmerged
    rw [hmaps source hsource]
    exact ⟨source, hsource, row, hrow, fun record => h record row⟩

instance : Decidable (ReadsOwnColumn rt fms ir columns) :=
  inferInstanceAs (Decidable (∀ field ∈ projectedFields rt fms ir, ∃ kept,
    readFrom rt fms ir columns field.1 = some kept ∧ ∀ e ∈ labels rt fms ir columns,
      keptName rt fms ir e.1 = some kept → e.2 = field.2.physicalFieldName))

/-- Field mappings of an order. -/
def orderFields (columns : List (String × String)) : List FieldMapping :=
  columns.map fun (logical, physical) =>
    { id := "fm_" ++ logical, entityMappingId := "em", logicalFieldId := "f_" ++ logical
      logicalFieldName := logical, physicalFieldName := physical }

/-- `GET Order { total, amount AS sum }` -/
def amountQuery (alias_ : Option String) : AltrQueryIR where
  entity := "Order"
  projection := [⟨⟨"total", []⟩, none⟩, ⟨⟨"amount", []⟩, alias_⟩]

theorem mergeFaithful_aliased : MergeFaithful Runtime.ints
    (orderFields [("total", "amount"), ("amount", "net")]) (amountQuery (some "sum")) [] :=
  mergeFaithful_iff.2 (by decide)

/-- The column of `total` has the name of the field `amount`. -/
theorem not_mergeFaithful_renamed : ¬ ∀ (V : Type) (rt : Runtime V) (fms : List FieldMapping)
    (ir : AltrQueryIR) (columns : List String),
    (fms.map fun fm => rt.py.lower fm.logicalFieldName).Nodup →
    (fms.map (·.physicalFieldName)).Nodup → (∀ sel ∈ ir.projection, sel.path.isNested = false ∧
      ∃ fm ∈ fms, fm.logicalFieldName = sel.path.root) → MergeFaithful rt fms ir columns := by
  intro h
  have hrows := (h ℤ Runtime.ints (orderFields [("total", "amount"), ("amount", "net")])
    (amountQuery none) [] (by decide) (by decide) (by decide)).entering
  let record : String → Option ℤ := fun c => if c = "amount" then some 1 else some 2
  have hrow : Returned (labels Runtime.ints (orderFields [("total", "amount"), ("amount", "net")])
      (amountQuery none) []) record [("total", some 1), ("amount", some 2)] := by
    refine ⟨by decide, fun label => ?_, ?_⟩
    · show label ∈ ["total", "amount"] ↔ ∃ c, (label, c) ∈ [("total", "amount"), ("amount", "net")]
      simp [exists_or]
    · simp only [List.forall_mem_cons]
      exact ⟨⟨"amount", by decide, rfl⟩, ⟨"net", by decide, rfl⟩, by simp⟩
  exact absurd (hrows record _ hrow _ (List.mem_cons_self ..)) (by decide)

end AltrStream.Planning
