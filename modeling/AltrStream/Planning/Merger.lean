import AltrStream.Foundations.Comparison
import AltrStream.Foundations.Dict
import AltrStream.Python.Str
import AltrStream.QueryEngine.Ast

/-! # Merging the results of several sources

`planning/merger.py`: rows are renamed to logical columns, cut to the projection,
sorted across the sources and cut to the window of the query. A cell is `none` for
None.
-/
namespace AltrStream.Planning
open Foundations Python QueryEngine

/-- What Python's objects and collections do: letter case, the comparisons of values (`none` is a
TypeError), `list.sort` with a comparator and the order in which a set is traversed. -/
structure Runtime (V : Type) where
  py : Casing
  lt : V → V → Option Bool
  gt : V → V → Option Bool
  str : V → String
  sort : {α : Type} → (α → α → Ordering) → List α → List α
  perm_sort : ∀ {α : Type} (cmp : α → α → Ordering) (l : List α), (sort cmp l).Perm l
  sort_stable : ∀ {α : Type} (cmp : α → α → Ordering) (l : List α),
    ConsistentOn cmp {a | a ∈ l} → sort cmp l = stableSort cmp l
  traversal : List String → List String
  mem_traversal : ∀ l x, x ∈ traversal l ↔ x ∈ l

abbrev Row (V : Type) := Dict String (Option V)

/-- `row.get(name)` -/
def Row.cell {V : Type} (row : Row V) (name : String) : Option V := (row.get? name).join

/-- The two dictionaries of field names in a physical plan. -/
structure FieldMaps where
  logicalToPhysical : Dict String String := []
  physicalToLogical : Dict String String := []
  deriving DecidableEq, Repr

section
variable {V : Type} (py : Casing)

/-! ### Renaming -/

/-- The aliases of an explicit projection. -/
def aliasesOf (ir : AltrQueryIR) : List String :=
  (ir.projection.filterMap (·.alias_)).filter (· ≠ "")

/-- The name under which a column is kept: that of an alias, of a mapped column or of a logical
field, each looked for as it is and then ignoring case. -/
def normalizedName (physicalToLogical : Dict String String) (preserveUnmapped : Bool)
    (projectedAliases : List String) (col : String) : Option String :=
  let physLookup := Dict.ofEntries (physicalToLogical.map fun (k, v) => (py.lower k, v))
  let logLookup := Dict.ofEntries (physicalToLogical.map fun (_, v) => (py.lower v, v))
  let aliasLookup := Dict.ofEntries (projectedAliases.map fun a => (py.lower a, a))
  let known := physicalToLogical.contains "_id" || physLookup.contains "_id" ||
    logLookup.contains "_id" || aliasLookup.contains "_id"
  if col = "_id" ∧ known = false then none
  else if col ∈ projectedAliases then some col
  else (aliasLookup.get? (py.lower col)).or <| (physicalToLogical.get? col).or <|
    (physLookup.get? (py.lower col)).or <|
      if col ∈ physicalToLogical.map Prod.snd then some col
      else (logLookup.get? (py.lower col)).or (if preserveUnmapped then some col else none)

/-- `normalize_row` -/
def normalizeRow (physicalToLogical : Dict String String) (preserveUnmapped : Bool)
    (projectedAliases : List String) (row : Row V) : Row V :=
  .ofEntries <| row.filterMap fun (col, val) =>
    (normalizedName py physicalToLogical preserveUnmapped projectedAliases col).map (·, val)

/-- The column that a selection is returned under. -/
def outColumn (sel : FieldSelection) : String := (sel.alias_.filter (· ≠ "")).getD sel.path.leaf

/-- The entry of a selection in a formatted row. -/
def formatCell (row : Row V) (sel : FieldSelection) : Option (String × Option V) :=
  let outCol := outColumn sel
  let srcKey := sel.path.leaf
  ((row.get? outCol).or <| (row.get? srcKey).or <| (row.get? (py.lower outCol)).or <|
    row.get? (py.lower srcKey)).map (outCol, ·)

/-- A row cut to the projection. -/
def formatRow (projection : List FieldSelection) (row : Row V) : Row V :=
  .ofEntries (projection.filterMap (formatCell py row))

/-! ### Ordering -/

/-- The columns that rows are sorted by, and whether downwards. -/
def sortSpecs (ir : AltrQueryIR) : List (FieldPath × Bool) :=
  if ir.sort ≠ [] then ir.sort.map fun s => (s.field, s.direction = .desc)
  else ir.ranking.toList.map fun r => (r.field, r.direction = .top)

/-- `alias_map`: from an alias to its column and back. -/
def aliasMap (projection : List FieldSelection) : Dict String String :=
  .ofEntries <| projection.flatMap fun sel =>
    match sel.alias_.filter (· ≠ "") with
    | some alias_ => [(alias_, sel.path.leaf), (py.lower alias_, sel.path.leaf),
        (sel.path.leaf, alias_), (py.lower sel.path.leaf, alias_)]
    | none => []

/-- The columns that a sort field is looked for in, until one is not None. -/
def triedColumns (aliases : Dict String String) (name : String) : List String :=
  name :: (aliases.get? name).toList ++ (aliases.get? (py.lower name)).toList

def sortValue (aliases : Dict String String) (row : Row V) (name : String) : Option V :=
  (triedColumns py aliases name).findSome? row.cell

/-- `_compare_values` -/
def compareValues (rt : Runtime V) : Option V → Option V → Ordering
  | none, none => .eq
  | none, some _ => .lt
  | some _, none => .gt
  | some a, some b =>
    match rt.lt a b, rt.gt a b with
    | some true, _ => .lt
    | some false, some true => .gt
    | some false, some false => .eq
    | _, _ => compare (rt.str a) (rt.str b)

/-- A comparison upwards or downwards. -/
def directed (desc : Bool) (o : Ordering) : Ordering := if desc then o.swap else o

/-- Keys are compared field by field, until two differ. -/
def compareKeys {α : Type} (rt : Runtime V) (specs : List (FieldPath × Bool))
    (key : FieldPath → α → Option V) (a b : α) : Ordering :=
  specs.foldr (fun (field, desc) rest =>
    (directed desc (compareValues rt (key field a) (key field b))).then rest) .eq

/-- `_build_row_comparator` -/
def compareRows (rt : Runtime V) (aliases : Dict String String) (specs : List (FieldPath × Bool)) :
    Row V → Row V → Ordering :=
  compareKeys rt specs fun field row => sortValue rt.py aliases row field.leaf

end

section
variable {V : Type} (rt : Runtime V) (ir : AltrQueryIR)

/-- The order of the merged rows. -/
def rowOrder (a b : Row V) : Ordering :=
  compareRows rt (aliasMap rt.py ir.projection) (sortSpecs ir) a b

/-- A row of a source as it enters the merged result. -/
def mergedRow (maps : FieldMaps) (row : Row V) : Row V :=
  if ir.isWildcardProjection then normalizeRow rt.py maps.physicalToLogical false [] row
  else formatRow rt.py ir.projection
    (normalizeRow rt.py maps.physicalToLogical false (rt.traversal (aliasesOf ir).dedup) row)

/-- The distinct columns in the order of their first occurrence. -/
def mergedColumns (plans : List FieldMaps) (rows : List (Row V)) : List String :=
  if ir.isWildcardProjection then
    (((plans.head?.elim [] fun p => p.logicalToPhysical.keys) ++ rows.flatMap Dict.keys).reverse.dedup).reverse
  else ir.projection.map outColumn

def globalSort (rows : List (Row V)) : List (Row V) :=
  if sortSpecs ir = [] then rows else rt.sort (rowOrder rt ir) rows

/-- The number of rows that LIMIT or TOP leaves. -/
def windowLimit : Option ℤ :=
  (ir.limit.filter (0 ≤ ·)).or ((ir.ranking.map (·.count)).filter (0 ≤ ·))

def afterOffset {α : Type} (rows : List α) : List α :=
  match ir.offset.filter (0 < ·) with
  | some offset => rows.drop offset.toNat
  | none => rows

/-- OFFSET, then LIMIT or TOP. -/
def globalWindow {α : Type} (rows : List α) : List α :=
  match windowLimit ir with
  | some limit => (afterOffset ir rows).take limit.toNat
  | none => afterOffset ir rows

theorem globalWindow_sublist {α : Type} (rows : List α) : (globalWindow ir rows).Sublist rows := by
  have hoffset : (afterOffset ir rows).Sublist rows := by
    unfold afterOffset
    split
    · exact List.drop_sublist _ _
    · exact List.Sublist.refl _
  unfold globalWindow
  split
  · exact (List.take_sublist _ _).trans hoffset
  · exact hoffset

theorem perm_globalSort (rows : List (Row V)) : (globalSort rt ir rows).Perm rows := by
  unfold globalSort
  split_ifs
  · exact List.Perm.refl _
  · exact rt.perm_sort _ _

/-- The rows of a source as they enter the merged result. -/
def mergedRows (source : FieldMaps × List (Row V)) : List (Row V) :=
  source.2.map (mergedRow rt ir source.1)

/-- `merge_federated_results`, of the plans and of the results with the plans they come from. -/
def mergeFederatedResults (plans : List FieldMaps) (results : List (FieldMaps × List (Row V))) :
    List String × List (Row V) :=
  let rows := results.flatMap (mergedRows rt ir)
  (mergedColumns ir plans rows, globalWindow ir (globalSort rt ir rows))

/-- A row of the merged result is a row of a source. -/
theorem mem_mergeFederatedResults {plans : List FieldMaps} {results : List (FieldMaps × List (Row V))}
    {merged : Row V} (h : merged ∈ (mergeFederatedResults rt ir plans results).2) :
    ∃ source ∈ results, ∃ row ∈ source.2, mergedRow rt ir source.1 row = merged := by
  have hsorted := (globalWindow_sublist ir _).subset h
  obtain ⟨source, hsource, hmem⟩ := List.mem_flatMap.1 ((perm_globalSort rt ir _).mem_iff.1 hsorted)
  obtain ⟨row, hrow, rfl⟩ := List.mem_map.1 hmem
  exact ⟨source, hsource, row, hrow, rfl⟩

end

/-- Integers as values. -/
def Runtime.ints : Runtime ℤ where
  py := .ascii
  lt a b := some (a < b)
  gt a b := some (b < a)
  str := toString
  sort := stableSort
  perm_sort := perm_stableSort
  sort_stable _ _ _ := rfl
  traversal l := l
  mem_traversal _ _ := Iff.rfl

end AltrStream.Planning
