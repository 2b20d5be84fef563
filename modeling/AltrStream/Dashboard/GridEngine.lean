import AltrStream.Dashboard.NeverOverlap

/-! # Dragging and resizing cards

The grid puts a dropped or resized card at its new place and resolves the layout with that card
fixed.
-/
namespace AltrStream.Dashboard
open BentoCardConfig

namespace BentoCardConfig

def isResizable (c : BentoCardConfig) : Bool := c.maxColSpan > 1 || c.maxRowSpan > 1

theorem minColSpan_le_maxColSpan (c : BentoCardConfig) : c.minColSpan ≤ c.maxColSpan := by
  unfold minColSpan maxColSpan
  split <;> decide

theorem minRowSpan_le_maxRowSpan (c : BentoCardConfig) : c.minRowSpan ≤ c.maxRowSpan := by
  unfold minRowSpan maxRowSpan
  split <;> decide

theorem clamp_between {x lower upper : ℕ} (h : lower ≤ upper) :
    lower ≤ clamp x lower upper ∧ clamp x lower upper ≤ upper := by
  unfold clamp
  split
  · exact ⟨le_rfl, h⟩
  · split <;> omega

/-- A copy is within the limits of its id, whatever the card was. -/
theorem withinLimits_copyWith (c : BentoCardConfig) (u : Changes) :
    (c.copyWith u).WithinLimits := by
  obtain ⟨h1, h2⟩ := @clamp_between (u.colSpan.getD c.colSpan) _ _
    (minColSpan_le_maxColSpan ⟨u.id.getD c.id, 0, 0, 1, 1, ""⟩)
  obtain ⟨h3, h4⟩ := @clamp_between (u.rowSpan.getD c.rowSpan) _ _
    (minRowSpan_le_maxRowSpan ⟨u.id.getD c.id, 0, 0, 1, 1, ""⟩)
  exact ⟨h1, h2, h3, h4⟩

theorem copyWith_id (c : BentoCardConfig) (u : Changes) (h : u.id = none) :
    (c.copyWith u).id = c.id := by
  simp [copyWith, h]

end BentoCardConfig

/-- `int.clamp` for the places that a pointer can name. -/
def clampInt (x lower upper : ℤ) : ℤ := if x < lower then lower else if x > upper then upper else x

/-- The column at which a card of that many columns is still on the grid. -/
def fittingCol (col : ℤ) (colSpan : ℕ) : ℤ :=
  if col + colSpan > 3 then clampInt (3 - colSpan) 0 2 else col

/-- The layout before it is resolved; `none` if the card is not there. -/
def droppedAt (configs : Layout) (draggedId : String) (targetCol targetRow : ℤ) : Option Layout :=
  (configs.findIdx? fun c => c.id = draggedId).bind fun fromIdx =>
    configs[fromIdx]?.map fun fromCard =>
      configs.set fromIdx (fromCard.copyWith
        { col := some (fittingCol targetCol fromCard.colSpan)
          row := some (clampInt targetRow 0 50).toNat })

/-- The layout that is reported when a card was dropped. -/
def onSlotDropped (configs : Layout) (draggedId : String) (targetCol targetRow : ℤ) :
    Option Layout :=
  (droppedAt configs draggedId targetCol targetRow).map fun list =>
    BentoCollisionResolver.resolve list (some draggedId)

/-- The spans within the card's limits, by footprint. -/
def candidateSpans (config : BentoCardConfig) : List (ℕ × ℕ) :=
  [(1, 1), (2, 1), (3, 1), (2, 2), (3, 2), (3, 3)].filter fun s =>
    s.1 ≤ config.maxColSpan && s.2 ≤ config.maxRowSpan

def nextSpan (config : BentoCardConfig) : Option (ℕ × ℕ) :=
  let candidates := candidateSpans config
  let nextIdx := ((candidates.idxOf? (config.colSpan, config.rowSpan)).elim 0 (· + 1)) %
    candidates.length
  candidates[nextIdx]?

/-- The layout before it is resolved; `none` if nothing is to be done. -/
def spanCycled (configs : Layout) (config : BentoCardConfig) : Option Layout :=
  if !config.isResizable then none
  else
    (configs.findIdx? fun c => c.id = config.id).bind fun idx =>
      (nextSpan config).map fun s =>
        configs.set idx (config.copyWith
          { col := some (fittingCol config.col s.1), colSpan := some s.1, rowSpan := some s.2 })

/-- The layout that is reported when a card was resized by a click. -/
def cycleCardSpan (configs : Layout) (config : BentoCardConfig) : Option Layout :=
  (spanCycled configs config).map fun list =>
    BentoCollisionResolver.resolve list (some config.id)

/-- The layout before it is resolved; `none` if the corner was not dragged by a column or a row. -/
def cornerDragged (configs : Layout) (config : BentoCardConfig) (colsDelta rowsDelta : ℤ) :
    Option Layout :=
  if !config.isResizable then none
  else
    let newColSpan :=
      (clampInt (config.colSpan + colsDelta) config.minColSpan config.maxColSpan).toNat
    let newRowSpan :=
      (clampInt (config.rowSpan + rowsDelta) config.minRowSpan config.maxRowSpan).toNat
    let newCol := fittingCol config.col newColSpan
    if newColSpan = config.colSpan ∧ newRowSpan = config.rowSpan ∧ newCol = config.col then none
    else
      (configs.findIdx? fun c => c.id = config.id).map fun idx =>
        configs.set idx (config.copyWith
          { col := some newCol, colSpan := some newColSpan, rowSpan := some newRowSpan })

/-- The layout that is reported while a card is resized, by the columns and rows that its corner was
dragged. -/
def onResizeUpdate (configs : Layout) (config : BentoCardConfig) (colsDelta rowsDelta : ℤ) :
    Option Layout :=
  (cornerDragged configs config colsDelta rowsDelta).map fun list =>
    BentoCollisionResolver.resolve list (some config.id)

variable {configs list : Layout} {config : BentoCardConfig} {draggedId : String} {n : ℕ}

/-- To put a card in the place of one with its id keeps a layout well formed. -/
theorem WellFormed.set (hl : WellFormed configs) {c : BentoCardConfig} (hlim : c.WithinLimits)
    (hid : (configs[n]?.map BentoCardConfig.id) = some c.id) : WellFormed (configs.set n c) := by
  refine ⟨?_, ?_⟩
  · rw [List.map_set]
    have hsame : (configs.map BentoCardConfig.id).set n c.id = configs.map BentoCardConfig.id := by
      apply List.ext_getElem?
      intro k
      by_cases hk : n = k
      · subst hk
        rw [List.getElem?_set, if_pos rfl, List.getElem?_map, hid]
        obtain ⟨d, hd, -⟩ := Option.map_eq_some_iff.1 hid
        rw [List.length_map, if_pos (List.getElem?_eq_some_iff.1 hd).1]
      · rw [List.getElem?_set_ne hk]
    rw [hsame]
    exact hl.ids
  · intro d hd
    rcases List.mem_or_eq_of_mem_set hd with hd | rfl
    · exact hl.limits d hd
    · exact hlim

theorem wellFormed_droppedAt (hl : WellFormed configs) {targetCol targetRow : ℤ}
    (h : droppedAt configs draggedId targetCol targetRow = some list) : WellFormed list := by
  obtain ⟨fromIdx, -, h⟩ := Option.bind_eq_some_iff.1 h
  obtain ⟨fromCard, hcard, rfl⟩ := Option.map_eq_some_iff.1 h
  refine hl.set (withinLimits_copyWith _ _) ?_
  rw [hcard, copyWith_id _ _ rfl]
  rfl

theorem wellFormed_spanCycled (hl : WellFormed configs)
    (h : spanCycled configs config = some list) : WellFormed list := by
  unfold spanCycled at h
  split at h
  · cases h
  · obtain ⟨idx, hidx, h⟩ := Option.bind_eq_some_iff.1 h
    obtain ⟨s, -, rfl⟩ := Option.map_eq_some_iff.1 h
    refine hl.set (withinLimits_copyWith _ _) ?_
    obtain ⟨hlt, hid, -⟩ := List.findIdx?_eq_some_iff_getElem.1 hidx
    rw [List.getElem?_eq_getElem hlt, copyWith_id _ _ rfl]
    simpa using hid

open BentoCollisionResolver in
/-- Every drop in a layout of at most twenty-six cards is resolved. -/
theorem resolved_droppedAt (hl : WellFormed configs) (hlen : configs.length ≤ 26)
    {targetCol targetRow : ℤ}
    (h : droppedAt configs draggedId targetCol targetRow = some list) :
    Resolved (some draggedId) list := by
  have hwf := wellFormed_droppedAt hl h
  obtain ⟨fromIdx, -, h⟩ := Option.bind_eq_some_iff.1 h
  obtain ⟨fromCard, -, rfl⟩ := Option.map_eq_some_iff.1 h
  refine resolved_of_settlesWithin hwf (settlesWithin_of_length hwf ?_)
  rw [List.length_set]
  unfold maxIterations
  omega

open BentoCollisionResolver in
theorem resolved_spanCycled (hl : WellFormed configs) (hlen : configs.length ≤ 26)
    (h : spanCycled configs config = some list) : Resolved (some config.id) list := by
  have hwf := wellFormed_spanCycled hl h
  have hlist : list.length = configs.length := by
    unfold spanCycled at h
    split at h
    · cases h
    · obtain ⟨idx, -, h⟩ := Option.bind_eq_some_iff.1 h
      obtain ⟨s, -, rfl⟩ := Option.map_eq_some_iff.1 h
      exact List.length_set
  refine resolved_of_settlesWithin hwf (settlesWithin_of_length hwf ?_)
  unfold maxIterations
  omega

end AltrStream.Dashboard
