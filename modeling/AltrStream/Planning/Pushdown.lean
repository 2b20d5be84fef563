import AltrStream.Planning.RowOrder
import AltrStream.QueryEngine.Validator

/-! # The limits that sources are given

`_compute_federated_plan_ir_updates` of `planning/planner.py`. A sorted query with
a limit asks every source for no more rows than the global window can reach; the
window of the merged rows is then what it would be without.
-/
namespace AltrStream.Planning
open Foundations Python QueryEngine

/-- The limit of the query, or else of its ranking. -/
def limitOrCount (ir : AltrQueryIR) : ℤ := ir.limit.getD (ir.ranking.elim 0 (·.count))

def pushedLimit (ir : AltrQueryIR) : Option ℤ :=
  let hasSort := ir.sort ≠ [] ∨ ir.ranking.isSome
  let hasLimit := (ir.limit.any fun l => 0 ≤ l) ∨ (ir.ranking.any fun r => 0 ≤ r.count)
  if hasSort ∧ hasLimit then some ((ir.offset.filter (0 < ·)).getD 0 + limitOrCount ir) else none

/-- The query that the sources are given: `ir.model_copy(update=updates)`. -/
def federatedPlanIr (ir : AltrQueryIR) : AltrQueryIR :=
  let sort := match ir.ranking with
    | some ranking =>
      if ir.sort = [] then [⟨ranking.field, if ranking.direction = .top then .desc else .asc⟩]
      else ir.sort
    | none => ir.sort
  { ir with offset := none, limit := pushedLimit ir, sort, ranking := none }

section
variable {V : Type} (rt : Runtime V) (ir : AltrQueryIR)

/-- A source returns its matching rows in the order of the merged rows, cut to the pushed limit. -/
def Returns (returned source : FieldMaps × List (Row V)) : Prop :=
  returned.1 = source.1 ∧ ∃ sorted : List (Row V), sorted.Perm source.2 ∧
    (sorted.Pairwise fun a b =>
      rowOrder rt ir (mergedRow rt ir source.1 a) (mergedRow rt ir source.1 b) ≠ .gt) ∧
    returned.2 = match (federatedPlanIr ir).limit with
      | some limit => sorted.take limit.toNat
      | none => sorted

/-- The sort keys of a row. -/
def sortKeys (row : Row V) : List (Option V) :=
  (sortSpecs ir).map fun spec => sortValue rt.py (aliasMap rt.py ir.projection) row spec.1.leaf

/-- Key by key, neither comes before the other. -/
def SameKeys (a b : Row V) : Prop :=
  List.Forall₂ (fun x y => compareValues rt x y = .eq) (sortKeys rt ir a) (sortKeys rt ir b)

/-- The sort keys of the rows are comparable, field by field. -/
def KeysComparable (rows : List (Row V)) : Prop :=
  ∀ spec ∈ sortSpecs ir, PairwiseComparable rt
    {v | ∃ row ∈ rows, sortValue rt.py (aliasMap rt.py ir.projection) row spec.1.leaf = some v}

end

variable {V : Type} {rt : Runtime V} {ir : AltrQueryIR}

theorem sortSpecs_eq_nil : sortSpecs ir = [] ↔ ir.sort = [] ∧ ir.ranking = none := by
  unfold sortSpecs
  split_ifs with h
  · simp [h]
  · cases ir.ranking <;> simp_all

theorem sortSpecs_ne_nil : sortSpecs ir ≠ [] ↔ ir.sort ≠ [] ∨ ir.ranking.isSome := by
  rw [Ne, sortSpecs_eq_nil, not_and_or, Option.isSome_iff_ne_none]

theorem hasLimit_iff : ((ir.limit.any fun l => 0 ≤ l) ∨ (ir.ranking.any fun r => 0 ≤ r.count)) ↔
    (windowLimit ir).isSome := by
  unfold windowLimit
  cases ir.limit <;> cases ir.ranking <;> simp [Option.filter]

/-- Without a LIMIT that is negative the limit of the sources is that of the window and the offset. -/
theorem pushedLimit_of_window (hvalid : validateLimit ir = .ok ()) (hsort : sortSpecs ir ≠ [])
    {n : ℤ} (hn : windowLimit ir = some n) : 0 ≤ n ∧
      (federatedPlanIr ir).limit = some ((ir.offset.filter (0 < ·)).getD 0 + n) := by
  have hpush : pushedLimit ir = some ((ir.offset.filter (0 < ·)).getD 0 + limitOrCount ir) :=
    if_pos ⟨sortSpecs_ne_nil.1 hsort, hasLimit_iff.2 (by rw [hn]; rfl)⟩
  show 0 ≤ n ∧ pushedLimit ir = _
  rw [hpush]
  cases hlimit : ir.limit with
  | some l =>
    have hl : 0 ≤ l := by
      simp only [validateLimit, hlimit, bind_eq_ok, raiseIf_eq_ok] at hvalid
      obtain ⟨_, hl, -⟩ := hvalid
      omega
    have hnl : l = n := by simpa [windowLimit, hlimit, Option.filter, hl] using hn
    subst hnl
    exact ⟨hl, by rw [limitOrCount, hlimit]; rfl⟩
  | none =>
    rw [windowLimit, hlimit, Option.filter_none, Option.none_or, Option.filter_eq_some_iff,
      Option.map_eq_some_iff] at hn
    obtain ⟨⟨ranking, hranking, rfl⟩, hpos⟩ := hn
    refine ⟨of_decide_eq_true hpos, ?_⟩
    rw [limitOrCount, hlimit, hranking]
    rfl

theorem pushedLimit_eq_none (h : sortSpecs ir = [] ∨ windowLimit ir = none) :
    (federatedPlanIr ir).limit = none := by
  refine if_neg ?_
  rintro ⟨hsort, hlimit⟩
  rcases h with h | h
  · exact sortSpecs_ne_nil.2 hsort h
  · have hsome := hasLimit_iff.1 hlimit
    rw [h] at hsome
    cases hsome

theorem sameKeys_of_rowOrder {a b : Row V} (h : rowOrder rt ir a b = .eq) : SameKeys rt ir a b := by
  unfold SameKeys sortKeys rowOrder at *
  generalize sortSpecs ir = specs at *
  induction specs with
  | nil => exact .nil
  | cons spec specs ih =>
    rw [compareRows, compareKeys_cons, Ordering.then_eq_eq, directed_eq_eq] at h
    exact .cons h.1 (ih h.2)

theorem globalWindow_eq {α : Type} {n : ℤ} (hn : windowLimit ir = some n) (rows : List α) :
    globalWindow ir rows = (rows.drop ((ir.offset.filter (0 < ·)).getD 0).toNat).take n.toNat := by
  simp only [globalWindow, hn, afterOffset]
  cases ir.offset.filter (0 < ·) <;> rfl

/-- What the sources return is what they sorted, cut to the pushed limit. -/
theorem exists_sorted {returned sources : List (FieldMaps × List (Row V))}
    (h : List.Forall₂ (Returns rt ir) returned sources) : ∃ sorted : List (List (Row V)),
      List.Forall₂ (fun t s => t.Perm s ∧ t.Pairwise (rowOrder rt ir · · ≠ .gt)) sorted
        (sources.map (mergedRows rt ir)) ∧
      returned.map (mergedRows rt ir) = sorted.map fun t =>
        match (federatedPlanIr ir).limit with
        | some limit => t.take limit.toNat
        | none => t := by
  induction h with
  | nil => exact ⟨[], .nil, rfl⟩
  | @cons returned source _ _ hreturns _ ih =>
    obtain ⟨sorted, hsorted, hmap⟩ := ih
    obtain ⟨hmaps, own, hperm, hpairwise, hcut⟩ := hreturns
    refine ⟨own.map (mergedRow rt ir source.1) :: sorted,
      .cons ⟨hperm.map _, List.pairwise_map.2 hpairwise⟩ hsorted, ?_⟩
    rw [List.map_cons, List.map_cons, hmap, mergedRows, hmaps, hcut]
    congr 1
    cases (federatedPlanIr ir).limit with
    | some limit => exact List.map_take ..
    | none => rfl

theorem merged_eq (plans : List FieldMaps) (results : List (FieldMaps × List (Row V))) :
    (mergeFederatedResults rt ir plans results).2 =
      globalWindow ir (globalSort rt ir (results.map (mergedRows rt ir)).flatten) := rfl

/-- The window of the merged rows is the window of the sorted union, but for ties, and no row is
returned more often than it is there. -/
theorem window_of_truncated (hvalid : validateLimit ir = .ok ()) (hsort : sortSpecs ir ≠ [])
    {n : ℤ} (hn : windowLimit ir = some n) {sources returned : List (FieldMaps × List (Row V))}
    (hkeys : KeysComparable rt ir (sources.map (mergedRows rt ir)).flatten)
    (hreturned : List.Forall₂ (Returns rt ir) returned sources) (plans : List FieldMaps) :
    List.Forall₂ (rowOrder rt ir · · = .eq) (mergeFederatedResults rt ir plans returned).2
        (globalWindow ir (stableSort (rowOrder rt ir) (sources.map (mergedRows rt ir)).flatten)) ∧
      (mergeFederatedResults rt ir plans returned).2.Subperm
        (sources.map (mergedRows rt ir)).flatten := by
  obtain ⟨hpos, hlimit⟩ := pushedLimit_of_window hvalid hsort hn
  obtain ⟨sorted, hsorted, hcut⟩ := exists_sorted hreturned
  set offset := (ir.offset.filter (0 < ·)).getD 0 with hoffset
  have hoffpos : 0 ≤ offset := by
    cases ho : ir.offset.filter (0 < ·) with
    | none => simp [hoffset, ho]
    | some o =>
      have := of_decide_eq_true (Option.filter_eq_some_iff.1 ho).2
      simp only [hoffset, ho, Option.getD_some]
      omega
  have hcut : returned.map (mergedRows rt ir) = sorted.map (List.take (offset.toNat + n.toNat)) := by
    rw [hcut, hlimit]
    simp only [Int.toNat_add hoffpos hpos]
  have hconsistent : ConsistentOn (rowOrder rt ir) {a | a ∈ (sources.map (mergedRows rt ir)).flatten} :=
    @consistentOn_compareKeys V rt _ (fun field row => sortValue rt.py _ row field.leaf) _ _ hkeys
  have hsubperm : ((sorted.map (List.take (offset.toNat + n.toNat))).flatten).Subperm
      (sources.map (mergedRows rt ir)).flatten :=
    subperm_truncated _ (hsorted.imp fun _ _ => And.left)
  have hmerged : (mergeFederatedResults rt ir plans returned).2 =
      ((stableSort (rowOrder rt ir) (sorted.map (List.take (offset.toNat + n.toNat))).flatten).drop
        offset.toNat).take n.toNat := by
    rw [merged_eq, globalWindow_eq hn, globalSort, if_neg hsort, hcut, rt.sort_stable]
    exact hconsistent.mono fun a ha => hsubperm.subset ha
  rw [hmerged]
  constructor
  · have hwindow : ∀ l : List (Row V), (l.drop offset.toNat).take n.toNat =
        (l.take (offset.toNat + n.toNat)).drop offset.toNat := by
      intro l
      rw [List.drop_take, Nat.add_sub_cancel_left]
    rw [globalWindow_eq hn, ← hoffset, hwindow, hwindow]
    exact List.forall₂_drop _ (tied_take_of_truncated _ _ _ hconsistent hsorted)
  · refine List.Subperm.trans ?_ hsubperm
    exact (((List.take_sublist _ _).trans (List.drop_sublist _ _)).subperm).trans
      (perm_stableSort _ _).subperm

/-- `GET Order { total } SORT total LIMIT 1 OFFSET 1` -/
def secondOrder : AltrQueryIR where
  entity := "Order"
  projection := [⟨⟨"total", []⟩, none⟩]
  sort := [⟨⟨"total", []⟩, .asc⟩]
  limit := some 1
  offset := some 1

def totals (values : List ℤ) : FieldMaps × List (Row ℤ) :=
  (⟨[("total", "amount")], [("amount", "total")]⟩, values.map fun v => [("amount", some v)])

end AltrStream.Planning
