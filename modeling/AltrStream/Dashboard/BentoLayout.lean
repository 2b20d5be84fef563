import Mathlib.Data.Int.Notation
import Mathlib.Data.List.Basic

/-! # The cards of the dashboard

Cards on a grid of three columns. Cards that overlap are pushed down, pair by pair and in at most
fifty passes, and empty rows are then closed.
-/
namespace AltrStream.Dashboard

/-- A card with its place on the grid. -/
structure BentoCardConfig where
  id : String
  col : ℤ
  row : ℕ
  colSpan : ℕ
  rowSpan : ℕ
  title : String
  deriving DecidableEq, Repr

namespace BentoCardConfig

def maxRowSpan (c : BentoCardConfig) : ℕ :=
  match c.id with
  | "kpi" => 1
  | "sources" => 3
  | "usage" => 3
  | "activity" => 2
  | "registry" => 1
  | "source_summary" => 2
  | "quick_actions" => 1
  | "health_diagnostics" => 1
  | "source_capabilities" => 2
  | "schema_summary" => 1
  | "source_usage" => 3
  | _ => 3

def maxColSpan (c : BentoCardConfig) : ℕ :=
  match c.id with
  | "kpi" => 1
  | "sources" => 3
  | "usage" => 3
  | "activity" => 3
  | "registry" => 3
  | "source_summary" => 2
  | "quick_actions" => 2
  | "health_diagnostics" => 2
  | "source_capabilities" => 2
  | "schema_summary" => 1
  | "source_usage" => 3
  | _ => 3

def minRowSpan (_c : BentoCardConfig) : ℕ := 1
def minColSpan (_c : BentoCardConfig) : ℕ := 1

/-- The arguments of `copyWith`. -/
structure Changes where
  id : Option String := none
  col : Option ℤ := none
  row : Option ℕ := none
  colSpan : Option ℕ := none
  rowSpan : Option ℕ := none
  title : Option String := none

/-- `num.clamp` -/
def clamp (x lower upper : ℕ) : ℕ := if x < lower then lower else if x > upper then upper else x

def copyWith (c : BentoCardConfig) (u : Changes) : BentoCardConfig :=
  let effectiveId := u.id.getD c.id
  let configForLimits : BentoCardConfig := ⟨effectiveId, 0, 0, 1, 1, ""⟩
  { id := effectiveId
    col := u.col.getD c.col
    row := u.row.getD c.row
    colSpan :=
      clamp (u.colSpan.getD c.colSpan) configForLimits.minColSpan configForLimits.maxColSpan
    rowSpan :=
      clamp (u.rowSpan.getD c.rowSpan) configForLimits.minRowSpan configForLimits.maxRowSpan
    title := u.title.getD c.title }

/-- The spans are within the limits of the card. -/
def WithinLimits (c : BentoCardConfig) : Prop :=
  c.minColSpan ≤ c.colSpan ∧ c.colSpan ≤ c.maxColSpan ∧
    c.minRowSpan ≤ c.rowSpan ∧ c.rowSpan ≤ c.maxRowSpan

instance (c : BentoCardConfig) : Decidable c.WithinLimits := by
  unfold WithinLimits
  infer_instance

end BentoCardConfig

abbrev Layout := List BentoCardConfig

namespace BentoCollisionResolver

/-- Whether two boxes of the grid overlap. -/
def itemsOverlap (a b : BentoCardConfig) : Bool :=
  if a.id = b.id then false
  else
    let aRight := a.col + a.colSpan
    let aBottom := a.row + a.rowSpan
    let bRight := b.col + b.colSpan
    let bBottom := b.row + b.rowSpan
    let noHorizontal := decide (a.col ≥ bRight) || decide (aRight ≤ b.col)
    let noVertical := decide (a.row ≥ bBottom) || decide (aBottom ≤ b.row)
    !(noHorizontal || noVertical)

def lowerBottom (m : ℕ) (c : BentoCardConfig) : ℕ :=
  let bottom := c.row + c.rowSpan
  if bottom > m then bottom else m

/-- The bottom of the lowest card. -/
def maxRow (configs : Layout) : ℕ := configs.foldl lowerBottom 0

def markRow (maxRow : ℕ) (occupied : List Bool) (r : ℕ) : List Bool :=
  if r < maxRow then occupied.set r true else occupied

def markCard (maxRow : ℕ) (occupied : List Bool) (c : BentoCardConfig) : List Bool :=
  (List.range' c.row c.rowSpan).foldl (markRow maxRow) occupied

def occupiedRows (configs : Layout) (maxRow : ℕ) : List Bool :=
  configs.foldl (markCard maxRow) (List.replicate maxRow false)

def countRow (occupied : List Bool) (s : ℕ × List ℕ) (r : ℕ) : ℕ × List ℕ :=
  let emptyCount := if occupied.getD r false then s.1 else s.1 + 1
  (emptyCount, s.2.set (r + 1) emptyCount)

/-- How many empty rows there are altogether, and before each row. -/
def emptyRowsBefore (occupied : List Bool) (maxRow : ℕ) : ℕ × List ℕ :=
  (List.range maxRow).foldl (countRow occupied) (0, List.replicate (maxRow + 1) 0)

/-- Closes the rows that no card is on. -/
def compactRows (configs : Layout) : Layout :=
  if configs.isEmpty then configs
  else
    let maxRow := maxRow configs
    if maxRow = 0 then configs
    else
      let before := emptyRowsBefore (occupiedRows configs maxRow) maxRow
      if before.1 = 0 then configs
      else configs.map fun c =>
        let shift := before.2.getD (BentoCardConfig.clamp c.row 0 maxRow) 0
        if shift = 0 then c else c.copyWith { row := some (c.row - shift) }

section
variable (fixedId : Option String)

/-- The layout after the cards at `i` and `j` were found to overlap. -/
def pushed (list : Layout) (i j : ℕ) (cardA cardB : BentoCardConfig) : Layout :=
  if some cardA.id = fixedId then
    list.set j (cardB.copyWith { row := some (cardA.row + cardA.rowSpan) })
  else if some cardB.id = fixedId then
    list.set i (cardA.copyWith { row := some (cardB.row + cardB.rowSpan) })
  else if cardA.row < cardB.row then
    list.set j (cardB.copyWith { row := some (cardA.row + cardA.rowSpan) })
  else if cardB.row < cardA.row then
    list.set i (cardA.copyWith { row := some (cardB.row + cardB.rowSpan) })
  else list.set j (cardB.copyWith { row := some (cardA.row + cardA.rowSpan) })

/-- The body of the inner loop, on `hasCollision` and the list. -/
def visit (s : Bool × Layout) (i j : ℕ) : Bool × Layout :=
  if i = j then s
  else
    match s.2[i]?, s.2[j]? with
    | some cardA, some cardB =>
      if itemsOverlap cardA cardB then (true, pushed fixedId s.2 i j cardA cardB) else s
    | _, _ => s

/-- One pass over all pairs. -/
def pass (list : Layout) : Bool × Layout :=
  (List.range list.length).foldl (fun s i =>
    (List.range list.length).foldl (fun s j => visit fixedId s i j) s) (false, list)

/-- The `while` loop, with the passes left. -/
def pushLoop : ℕ → Layout → Layout
  | 0, list => list
  | n + 1, list =>
    let s := pass fixedId list
    if s.1 then pushLoop n s.2 else s.2

end

def maxIterations : ℕ := 50

def resolve (configs : Layout) (fixedId : Option String) : Layout :=
  compactRows (pushLoop fixedId maxIterations configs)

end BentoCollisionResolver

end AltrStream.Dashboard
