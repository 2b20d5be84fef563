import AltrStream.Dashboard.GridEngine
import AltrStream.Foundations.Dict
import AltrStream.Foundations.Reached
import Mathlib.Algebra.Order.BigOperators.Group.Finset
import Mathlib.Order.Interval.Finset.Nat

/-! # Saved layouts

Two pages have a grid. The layout of a page is cached and kept in the local storage as JSON, from
where it is read when the app starts again.
-/
namespace AltrStream.Dashboard
open Foundations BentoCollisionResolver

/-! ### Cards as JSON -/

/-- What `jsonDecode` gives. A number stands for what `toInt` makes of it, which is nothing for an
infinite one. -/
inductive Dynamic where
  | null
  | bool (b : Bool)
  | num (toInt : Option ℤ)
  | string (s : String)
  | list (items : List Dynamic)
  | map (entries : List (String × Dynamic))

namespace BentoCardConfig

def toJson (c : BentoCardConfig) : Dynamic :=
  .map [("id", .string c.id), ("col", .num (some c.col)), ("row", .num (some c.row)),
    ("colSpan", .num (some c.colSpan)), ("rowSpan", .num (some c.rowSpan)),
    ("title", .string c.title)]

/-- `(json[key] as num?)?.toInt()`; the outer `none` is an exception. -/
def intField (json : Dict String Dynamic) (key : String) : Option (Option ℤ) :=
  match json.get? key with
  | none | some .null => some none
  | some (.num n) => n.map some
  | some _ => none

/-- `json[key] as String?` -/
def stringField (json : Dict String Dynamic) (key : String) : Option (Option String) :=
  match json.get? key with
  | none | some .null => some none
  | some (.string s) => some (some s)
  | some _ => none

/-- `none` where the source throws. -/
def fromJson : Dynamic → Option BentoCardConfig
  | .map json => do
    let id ← (stringField json "id").join
    let dummy : BentoCardConfig := ⟨id, 0, 0, 1, 1, ""⟩
    let col ← intField json "col"
    let row ← intField json "row"
    let colSpan ← intField json "colSpan"
    let rowSpan ← intField json "rowSpan"
    let title ← stringField json "title"
    return {
      id
      col := (col.map (clampInt · 0 2)).getD 0
      row := ((row.map (clampInt · 0 50)).getD 0).toNat
      colSpan := (clampInt (colSpan.getD 1) dummy.minColSpan dummy.maxColSpan).toNat
      rowSpan := (clampInt (rowSpan.getD 1) dummy.minRowSpan dummy.maxRowSpan).toNat
      title := title.getD "" }
  | _ => none

theorem clampInt_of_between {x lower upper : ℤ} (h1 : lower ≤ x) (h2 : x ≤ upper) :
    clampInt x lower upper = x := by
  unfold clampInt
  rw [if_neg (by omega), if_neg (by omega)]

/-- What is written of a card on the grid is read again. -/
theorem fromJson_toJson {c : BentoCardConfig} (hlim : c.WithinLimits) (hcol : 0 ≤ c.col ∧ c.col ≤ 2)
    (hrow : c.row ≤ 50) : fromJson c.toJson = some c := by
  obtain ⟨h1, h2, h3, h4⟩ := hlim
  have hcolSpan : clampInt c.colSpan (⟨c.id, 0, 0, 1, 1, ""⟩ : BentoCardConfig).minColSpan
      (⟨c.id, 0, 0, 1, 1, ""⟩ : BentoCardConfig).maxColSpan = c.colSpan :=
    clampInt_of_between (Int.ofNat_le.2 h1) (Int.ofNat_le.2 h2)
  have hrowSpan : clampInt c.rowSpan (⟨c.id, 0, 0, 1, 1, ""⟩ : BentoCardConfig).minRowSpan
      (⟨c.id, 0, 0, 1, 1, ""⟩ : BentoCardConfig).maxRowSpan = c.rowSpan :=
    clampInt_of_between (Int.ofNat_le.2 h3) (Int.ofNat_le.2 h4)
  have hcol' : clampInt c.col 0 2 = c.col := clampInt_of_between hcol.1 hcol.2
  have hrow' : clampInt c.row 0 50 = c.row := clampInt_of_between (by omega) (by omega)
  simp [fromJson, toJson, stringField, intField, Dict.get?, hcolSpan, hrowSpan, hcol', hrow']

end BentoCardConfig

/-! ### The pages -/

inductive Page where
  | overview
  | sourceDetail
  deriving DecidableEq, Repr

namespace Page

/-- `_storageKey` of the page's layout service. -/
def storageKey : Page → String
  | .overview => "altr_stream_overview_bento_v2"
  | .sourceDetail => "altr_stream_source_detail_bento_v3"

def defaultLayout : Page → Layout
  | .overview => [
    ⟨"kpi", 0, 0, 1, 1, "Connected Sources"⟩,
    ⟨"usage", 0, 1, 1, 1, "Altr Stream Usage"⟩,
    ⟨"sources", 1, 0, 2, 2, "Sources List"⟩,
    ⟨"registry", 0, 2, 3, 1, "Schema & Mapping Registry"⟩,
    ⟨"activity", 0, 3, 3, 1, "Recent Node Activity"⟩]
  | .sourceDetail => [
    ⟨"source_summary", 0, 0, 2, 1, "Source & Connection Details"⟩,
    ⟨"quick_actions", 2, 0, 1, 1, "Quick Actions"⟩,
    ⟨"health_diagnostics", 0, 1, 1, 1, "Health & Diagnostics"⟩,
    ⟨"source_capabilities", 1, 1, 1, 1, "Capabilities & Security"⟩,
    ⟨"schema_summary", 2, 1, 1, 1, "Discovered Schema Summary"⟩,
    ⟨"source_usage", 0, 2, 3, 2, "Data Source Usage & Operations"⟩]

/-- `_ensureAllCards` -/
def ensureAllCards (p : Page) (configs : Layout) : Layout :=
  let existingIds := configs.map BentoCardConfig.id
  resolve (configs ++ p.defaultLayout.filter fun defCard => defCard.id ∉ existingIds) none

end Page

/-- A text in the local storage, which is JSON or not. -/
inductive Stored where
  | json (value : Dynamic)
  | malformed

/-- The cards of a stored text; `none` where the source throws. -/
def Stored.loaded? : Stored → Option Layout
  | .json (.list rawList) => rawList.mapM BentoCardConfig.fromJson
  | _ => none

abbrev Storage := String → Option Stored

/-- What `getLayoutSync` gives without a cached layout. -/
def Page.readLayout (p : Page) (storage : Storage) : Layout :=
  ((storage p.storageKey).bind Stored.loaded?).elim p.defaultLayout p.ensureAllCards

/-- The local storage, the caches of the two services and the layouts that the screens show. -/
structure App where
  storage : Storage := fun _ => none
  cached : Page → Option Layout := fun _ => none
  shown : Page → Layout := Page.defaultLayout

namespace App

def getLayoutSync (app : App) (p : Page) : Layout := (app.cached p).getD (p.readLayout app.storage)

/-- The screen of a page is created. -/
def opened (app : App) (p : Page) : App :=
  let layout := app.getLayoutSync p
  { app with
    cached := Function.update app.cached p (some layout)
    shown := Function.update app.shown p layout }

def saveLayout (app : App) (p : Page) (configs : Layout) : App :=
  let resolved := p.ensureAllCards configs
  { app with
    cached := Function.update app.cached p (some resolved)
    storage := Function.update app.storage p.storageKey
      (some (.json (.list (resolved.map BentoCardConfig.toJson)))) }

/-- `resetLayout`, and the screen shows what it returns. -/
def resetLayout (app : App) (p : Page) : App where
  cached := Function.update app.cached p (some p.defaultLayout)
  storage := Function.update app.storage p.storageKey none
  shown := Function.update app.shown p p.defaultLayout

/-- The app starts again and opens its pages. -/
def restarted (app : App) : App :=
  ({ app with cached := fun _ => none }.opened .overview).opened .sourceDetail

/-- `onLayoutChanged`; nothing happens if no layout is reported. -/
def changed (app : App) (p : Page) : Option Layout → Except Unit App
  | some updated =>
    .ok ({ app with shown := Function.update app.shown p updated }.saveLayout p updated)
  | none => .error ()

end App

inductive PageAction where
  | opened (p : Page)
  | dropped (p : Page) (draggedId : String) (targetCol targetRow : ℤ)
  | cycled (p : Page) (config : BentoCardConfig)
  | resized (p : Page) (config : BentoCardConfig) (colsDelta rowsDelta : ℤ)
  /-- The grid saves with the service of the overview, whatever page it is on. -/
  | resizeEnded (p : Page)
  /-- The button of the source's page. -/
  | saved
  | reset (p : Page)
  | restarted
  deriving DecidableEq

def App.step (app : App) : PageAction → Except Unit App
  | .opened p => .ok (app.opened p)
  | .dropped p draggedId targetCol targetRow =>
    app.changed p (onSlotDropped (app.shown p) draggedId targetCol targetRow)
  | .cycled p config => app.changed p (cycleCardSpan (app.shown p) config)
  | .resized p config colsDelta rowsDelta =>
    app.changed p (onResizeUpdate (app.shown p) config colsDelta rowsDelta)
  | .resizeEnded p => .ok (app.saveLayout .overview (app.shown p))
  | .saved => .ok (app.saveLayout .sourceDetail (app.shown .sourceDetail))
  | .reset p => .ok (app.resetLayout p)
  | .restarted => .ok app.restarted

/-- Slots lie on the grid, and a card's handles are those of a card that is shown. -/
def App.Allowed (app : App) : PageAction → Prop
  | .dropped _ _ targetCol _ => 0 ≤ targetCol ∧ targetCol ≤ 2
  | .cycled p config | .resized p config _ _ => config ∈ app.shown p
  | _ => True

/-! ### Settled layouts -/

namespace BentoCardConfig

def OnGrid (c : BentoCardConfig) : Prop := 0 ≤ c.col ∧ c.col + c.colSpan ≤ 3

instance (c : BentoCardConfig) : Decidable c.OnGrid := inferInstanceAs (Decidable (_ ∧ _))

theorem maxColSpan_le (c : BentoCardConfig) : c.maxColSpan ≤ 3 := by
  unfold maxColSpan
  split <;> decide

theorem maxRowSpan_le (c : BentoCardConfig) : c.maxRowSpan ≤ 3 := by
  unfold maxRowSpan
  split <;> decide

/-- A card that is put at a fitting column is on the grid. -/
theorem onGrid_copyWith {c : BentoCardConfig} {u : Changes} {col : ℤ} (hid : u.id = none)
    (hcol : u.col = some (fittingCol col (u.colSpan.getD c.colSpan))) (hpos : 0 ≤ col)
    (hmin : c.minColSpan ≤ u.colSpan.getD c.colSpan)
    (hmax : u.colSpan.getD c.colSpan ≤ c.maxColSpan) : (c.copyWith u).OnGrid := by
  have hspan : (c.copyWith u).colSpan = u.colSpan.getD c.colSpan := by
    unfold copyWith
    rw [hid]
    exact clamp_of_between hmin hmax
  have hplace : (c.copyWith u).col = fittingCol col (u.colSpan.getD c.colSpan) := by
    unfold copyWith
    rw [hcol]
    rfl
  have hthree := hmax.trans c.maxColSpan_le
  have hone : 1 ≤ u.colSpan.getD c.colSpan := hmin
  unfold OnGrid
  rw [hspan, hplace]
  unfold fittingCol clampInt
  split_ifs <;> omega

end BentoCardConfig

namespace Page

/-- The ids on a page: those of its own cards, and on a mixed overview those of a source's page
before them. -/
def idLists (mixed : Bool) : Page → List (List String)
  | .overview =>
    let own := overview.defaultLayout.map BentoCardConfig.id
    if mixed then [own, sourceDetail.defaultLayout.map BentoCardConfig.id ++ own] else [own]
  | .sourceDetail => [sourceDetail.defaultLayout.map BentoCardConfig.id]

theorem idLists_spec (mixed : Bool) (p : Page) : ∀ ids ∈ p.idLists mixed,
    ids.Nodup ∧ ids.length ≤ 11 ∧ ∀ c ∈ p.defaultLayout, c.id ∈ ids := by
  cases mixed <;> cases p <;> decide

theorem storageKey_injective : Function.Injective storageKey := fun p q h => by
  cases p <;> cases q <;> first | rfl | exact absurd h (by decide)

end Page

/-- What a page shows: all its cards, on the grid, without overlaps and without empty rows. -/
structure Settled (mixed : Bool) (p : Page) (l : Layout) : Prop where
  ids : l.map BentoCardConfig.id ∈ p.idLists mixed
  limits : ∀ c ∈ l, c.WithinLimits
  onGrid : ∀ c ∈ l, c.OnGrid
  noOverlap : NoOverlap l
  full : Full l

section
variable {mixed : Bool} {p q : Page} {l list : Layout}

theorem Settled.wellFormed (h : Settled mixed p l) : WellFormed l :=
  ⟨(p.idLists_spec mixed _ h.ids).1, h.limits⟩

theorem Settled.length_le (h : Settled mixed p l) : l.length ≤ 11 := by
  have hlength := (p.idLists_spec mixed _ h.ids).2.1
  rwa [List.length_map] at hlength

/-- Every row has a card, and no card has more than three. -/
theorem maxRow_le (hlim : ∀ c ∈ l, c.WithinLimits) (hfull : Full l) : maxRow l ≤ l.length * 3 := by
  have hsub : Finset.range (maxRow l) ⊆ l.toFinset.biUnion fun c => Finset.Ico c.row c.bottom := by
    intro r hr
    obtain ⟨c, hc, hrow, hbottom⟩ := hfull r (Finset.mem_range.1 hr)
    exact Finset.mem_biUnion.2 ⟨c, List.mem_toFinset.2 hc, Finset.mem_Ico.2 ⟨hrow, hbottom⟩⟩
  have hspan : ∀ c ∈ l.toFinset, (Finset.Ico c.row c.bottom).card ≤ 3 := by
    intro c hc
    have hlimits := hlim c (List.mem_toFinset.1 hc)
    have hthree := hlimits.2.2.2.trans c.maxRowSpan_le
    rw [Nat.card_Ico]
    unfold BentoCardConfig.bottom
    omega
  calc maxRow l = (Finset.range (maxRow l)).card := (Finset.card_range _).symm
    _ ≤ (l.toFinset.biUnion fun c => Finset.Ico c.row c.bottom).card := Finset.card_le_card hsub
    _ ≤ l.toFinset.card * 3 := Finset.card_biUnion_le_card_mul _ _ _ hspan
    _ ≤ l.length * 3 := Nat.mul_le_mul_right _ (List.toFinset_card_le l)

/-- A settled layout is read as it was written. -/
theorem Settled.loaded (h : Settled mixed p l) :
    Stored.loaded? (.json (.list (l.map BentoCardConfig.toJson))) = some l := by
  have hcards : ∀ c ∈ l, BentoCardConfig.fromJson c.toJson = some c := by
    intro c hc
    obtain ⟨hcol, hright⟩ := h.onGrid c hc
    have hone : 1 ≤ c.colSpan := (h.limits c hc).1
    have hrow := row_le_maxRow hc
    have hrows := maxRow_le h.limits h.full
    have hlength := h.length_le
    exact BentoCardConfig.fromJson_toJson (h.limits c hc) ⟨hcol, by omega⟩ (by omega)
  have hall : ∀ cards : Layout, (∀ c ∈ cards, BentoCardConfig.fromJson c.toJson = some c) →
      (cards.map BentoCardConfig.toJson).mapM BentoCardConfig.fromJson = some cards := by
    intro cards hread
    induction cards with
    | nil => rfl
    | cons c cards ih =>
      obtain ⟨hc, hrest⟩ := List.forall_mem_cons.1 hread
      rw [List.map_cons, List.mapM_cons, hc, ih hrest]
      rfl
  exact hall l hcards

/-- To resolve cards of a page that are on the grid settles them. -/
theorem settled_resolve (hids : l.map BentoCardConfig.id ∈ p.idLists mixed)
    (hlim : ∀ c ∈ l, c.WithinLimits) (hgrid : ∀ c ∈ l, c.OnGrid) (fixedId : Option String) :
    Settled mixed p (resolve l fixedId) := by
  obtain ⟨hnodup, hlength, -⟩ := p.idLists_spec mixed _ hids
  have hwf : WellFormed l := ⟨hnodup, hlim⟩
  rw [List.length_map] at hlength
  have hresolved : Resolved fixedId l :=
    resolved_of_settlesWithin hwf (settlesWithin_of_length hwf (by unfold maxIterations; omega))
  have hmem : ∀ c ∈ resolve l fixedId, ∃ c' ∈ l, c'.moveTo 0 = c.moveTo 0 := fun c hc =>
    List.mem_map.1 (hresolved.cards ▸ List.mem_map_of_mem hc)
  have hsame := congrArg (List.map BentoCardConfig.id) hresolved.cards
  rw [List.map_map, List.map_map] at hsame
  refine ⟨hsame ▸ hids, fun c hc => ?_, fun c hc => ?_, hresolved.noOverlap, hresolved.full⟩
  · obtain ⟨c', hc', heq⟩ := hmem c hc
    exact (BentoCardConfig.withinLimits_moveTo 0).1 (heq ▸ hlim c' hc')
  · obtain ⟨c', hc', heq⟩ := hmem c hc
    have honGrid : (c.moveTo 0).OnGrid := heq ▸ hgrid c' hc'
    exact honGrid

theorem settled_defaultLayout (p : Page) : Settled mixed p p.defaultLayout := by
  refine ⟨?_, ?_, ?_, ?_, ?_⟩
  · cases mixed <;> cases p <;> decide
  · cases p <;> decide
  · cases p <;> decide
  · cases p <;> unfold NoOverlap <;> decide
  · cases p <;> unfold Full Occupied <;> decide

theorem filter_missing (hids : l.map BentoCardConfig.id ∈ p.idLists mixed) :
    (p.defaultLayout.filter fun defCard => defCard.id ∉ l.map BentoCardConfig.id) = [] :=
  List.filter_eq_nil_iff.2 fun c hc => by simpa using (p.idLists_spec mixed _ hids).2.2 c hc

theorem Settled.ensureAllCards (h : Settled mixed p l) : p.ensureAllCards l = l := by
  unfold Page.ensureAllCards
  dsimp only
  rw [filter_missing h.ids, List.append_nil]
  exact resolve_of_settled h.wellFormed h.noOverlap h.full

/-- The cards of a source's page, saved as the overview's. -/
theorem ensureAllCards_sourceDetail (h : Settled mixed .sourceDetail l) :
    Page.overview.ensureAllCards l = resolve (l ++ Page.overview.defaultLayout) none := by
  have hids : l.map BentoCardConfig.id = Page.sourceDetail.defaultLayout.map BentoCardConfig.id :=
    List.mem_singleton.1 h.ids
  unfold Page.ensureAllCards
  rw [hids]
  rfl

theorem settled_ensureAllCards_overview (h : Settled mixed q l)
    (hmixed : q = .sourceDetail → mixed = true) :
    Settled mixed .overview (Page.overview.ensureAllCards l) := by
  cases q with
  | overview => exact h.ensureAllCards.symm ▸ h
  | sourceDetail =>
    obtain rfl := hmixed rfl
    have hids : l.map BentoCardConfig.id = Page.sourceDetail.defaultLayout.map BentoCardConfig.id :=
      List.mem_singleton.1 h.ids
    have hdefault := @settled_defaultLayout true .overview
    rw [ensureAllCards_sourceDetail h]
    refine settled_resolve ?_ (List.forall_mem_append.2 ⟨h.limits, hdefault.limits⟩)
      (List.forall_mem_append.2 ⟨h.onGrid, hdefault.onGrid⟩) none
    rw [List.map_append, hids]
    decide

/-! ### Edits -/

/-- One card is replaced by one with its id that is on the grid. -/
def Edited (l list : Layout) : Prop :=
  ∃ idx new, l[idx]?.map BentoCardConfig.id = some new.id ∧ new.WithinLimits ∧ new.OnGrid ∧
    list = l.set idx new

theorem ids_set {n : ℕ} {c : BentoCardConfig} (hid : l[n]?.map BentoCardConfig.id = some c.id) :
    (l.set n c).map BentoCardConfig.id = l.map BentoCardConfig.id := by
  obtain ⟨d, hd, heq⟩ := Option.map_eq_some_iff.1 hid
  obtain ⟨hn, rfl⟩ := List.getElem?_eq_some_iff.1 hd
  have hmap : n < (l.map BentoCardConfig.id).length := by simpa using hn
  have hold : (l.map BentoCardConfig.id)[n] = c.id := by simpa using heq
  rw [List.map_set, ← hold, List.set_getElem_self]

theorem Settled.edited (h : Settled mixed p l) (hedit : Edited l list) (fixedId : Option String) :
    Settled mixed p (resolve list fixedId) := by
  obtain ⟨idx, new, hid, hlim, hgrid, rfl⟩ := hedit
  refine settled_resolve ?_ (fun c hc => ?_) (fun c hc => ?_) fixedId
  · rw [ids_set hid]
    exact h.ids
  · rcases List.mem_or_eq_of_mem_set hc with hc | rfl
    · exact h.limits c hc
    · exact hlim
  · rcases List.mem_or_eq_of_mem_set hc with hc | rfl
    · exact h.onGrid c hc
    · exact hgrid

theorem id_of_findIdx? {id : String} {idx : ℕ} (h : (l.findIdx? fun c => c.id = id) = some idx) :
    l[idx]?.map BentoCardConfig.id = some id := by
  obtain ⟨hlt, hid, -⟩ := List.findIdx?_eq_some_iff_getElem.1 h
  rw [List.getElem?_eq_getElem hlt]
  simpa using hid

theorem edited_droppedAt (h : Settled mixed p l) {draggedId : String} {targetCol targetRow : ℤ}
    (hcol : 0 ≤ targetCol) (hdrop : droppedAt l draggedId targetCol targetRow = some list) :
    Edited l list := by
  obtain ⟨fromIdx, -, hdrop⟩ := Option.bind_eq_some_iff.1 hdrop
  obtain ⟨fromCard, hcard, rfl⟩ := Option.map_eq_some_iff.1 hdrop
  obtain ⟨hmin, hmax, -⟩ := h.limits fromCard (List.mem_of_getElem? hcard)
  refine ⟨fromIdx, _, ?_, BentoCardConfig.withinLimits_copyWith _ _, ?_, rfl⟩
  · rw [hcard, BentoCardConfig.copyWith_id _ _ rfl]
    rfl
  · exact BentoCardConfig.onGrid_copyWith rfl rfl hcol hmin hmax

theorem edited_spanCycled (h : Settled mixed p l) {config : BentoCardConfig} (hconfig : config ∈ l)
    (hcycle : spanCycled l config = some list) : Edited l list := by
  unfold spanCycled at hcycle
  split at hcycle
  · cases hcycle
  · obtain ⟨idx, hidx, hcycle⟩ := Option.bind_eq_some_iff.1 hcycle
    obtain ⟨s, hs, rfl⟩ := Option.map_eq_some_iff.1 hcycle
    obtain ⟨hspan, hlimits⟩ := List.mem_filter.1 (List.mem_of_getElem? hs)
    have hpos : ∀ s ∈ [(1, 1), (2, 1), (3, 1), (2, 2), (3, 2), (3, 3)], 1 ≤ s.1 := by decide
    have hmax : s.1 ≤ config.maxColSpan := (by simpa using hlimits : _ ∧ _).1
    refine ⟨idx, _, ?_, BentoCardConfig.withinLimits_copyWith _ _, ?_, rfl⟩
    · rw [id_of_findIdx? hidx, BentoCardConfig.copyWith_id _ _ rfl]
    · exact BentoCardConfig.onGrid_copyWith rfl rfl (h.onGrid config hconfig).1 (hpos s hspan) hmax

theorem edited_cornerDragged (h : Settled mixed p l) {config : BentoCardConfig}
    {colsDelta rowsDelta : ℤ} (hconfig : config ∈ l)
    (hdrag : cornerDragged l config colsDelta rowsDelta = some list) :
    Edited l list := by
  unfold cornerDragged at hdrag
  split at hdrag
  · cases hdrag
  · dsimp only at hdrag
    split at hdrag
    · cases hdrag
    · obtain ⟨idx, hidx, rfl⟩ := Option.map_eq_some_iff.1 hdrag
      have hlimits := config.minColSpan_le_maxColSpan
      refine ⟨idx, _, ?_, BentoCardConfig.withinLimits_copyWith _ _, ?_, rfl⟩
      · rw [id_of_findIdx? hidx, BentoCardConfig.copyWith_id _ _ rfl]
      · refine BentoCardConfig.onGrid_copyWith rfl rfl (h.onGrid config hconfig).1 ?_ ?_
        · simp only [Option.getD_some]
          unfold clampInt
          split_ifs <;> omega
        · simp only [Option.getD_some]
          unfold clampInt
          split_ifs <;> omega

end

/-! ### What the pages keep -/

theorem readLayout_update {p q : Page} {storage : Storage} {text : Option Stored} :
    q.readLayout (Function.update storage p.storageKey text) =
      if q = p then (text.bind Stored.loaded?).elim p.defaultLayout p.ensureAllCards
      else q.readLayout storage := by
  unfold Page.readLayout
  by_cases hq : q = p
  · rw [if_pos hq, hq, Function.update_self]
  · rw [if_neg hq, Function.update_of_ne fun h => hq (Page.storageKey_injective h)]

/-- The pages show settled layouts and would read settled ones, a cached layout is the one that is
read, and so is one that is shown, unless it is that of a mixed overview. -/
structure Kept (mixed : Bool) (app : App) : Prop where
  shown : ∀ p, Settled mixed p (app.shown p)
  read : ∀ p, Settled mixed p (p.readLayout app.storage)
  cached : ∀ p l, app.cached p = some l → l = p.readLayout app.storage
  same : ∀ p, mixed = false ∨ p = .sourceDetail → app.shown p = p.readLayout app.storage

section
variable {mixed : Bool} {app app' : App} {p q : Page} {l : Layout}

theorem kept_fresh : Kept mixed {} :=
  ⟨settled_defaultLayout, settled_defaultLayout, nofun, fun _ _ => rfl⟩

theorem Kept.getLayoutSync (h : Kept mixed app) (p : Page) :
    app.getLayoutSync p = p.readLayout app.storage := by
  unfold App.getLayoutSync
  cases hcached : app.cached p with
  | none => rfl
  | some l => exact h.cached p l hcached

theorem Kept.opened (h : Kept mixed app) (p : Page) : Kept mixed (app.opened p) := by
  unfold App.opened
  rw [h.getLayoutSync]
  refine ⟨fun q => ?_, h.read, fun q l hl => ?_, fun q hsame => ?_⟩
  · by_cases hq : q = p
    · subst hq
      simpa using h.read q
    · simpa [Function.update_of_ne hq] using h.shown q
  · by_cases hq : q = p
    · subst hq
      simpa using hl.symm
    · exact h.cached q l (by simpa [Function.update_of_ne hq] using hl)
  · by_cases hq : q = p
    · subst hq
      simp
    · simpa [Function.update_of_ne hq] using h.same q hsame

theorem Kept.restarted (h : Kept mixed app) : Kept mixed app.restarted :=
  have hcleared : Kept mixed { app with cached := fun _ => none } :=
    ⟨h.shown, h.read, nofun, h.same⟩
  (hcleared.opened .overview).opened .sourceDetail

theorem shown_restarted (app : App) (p : Page) :
    app.restarted.shown p = p.readLayout app.storage := by
  cases p <;> rfl

theorem readLayout_saveLayout (hset : Settled mixed p (p.ensureAllCards l)) :
    q.readLayout (app.saveLayout p l).storage =
      if q = p then p.ensureAllCards l else q.readLayout app.storage := by
  unfold App.saveLayout
  rw [readLayout_update, Option.bind_some, hset.loaded, Option.elim_some, hset.ensureAllCards]

/-- Settled cards are saved for a page. -/
theorem kept_saveLayout (hshown : ∀ q, Settled mixed q (app.shown q))
    (hread : ∀ q, Settled mixed q (q.readLayout app.storage))
    (hcached : ∀ q l, app.cached q = some l → l = q.readLayout app.storage)
    (hset : Settled mixed p (p.ensureAllCards l))
    (hsame : ∀ q, mixed = false ∨ q = .sourceDetail → app.shown q =
      if q = p then p.ensureAllCards l else q.readLayout app.storage) :
    Kept mixed (app.saveLayout p l) := by
  refine ⟨hshown, fun q => ?_, fun q cards hcards => ?_, fun q hq => ?_⟩
  · rw [readLayout_saveLayout hset]
    split_ifs with hq
    · exact hq ▸ hset
    · exact hread q
  · rw [readLayout_saveLayout hset]
    split_ifs with hq
    · subst hq
      simpa [App.saveLayout] using hcards.symm
    · exact hcached q cards (by simpa [App.saveLayout, Function.update_of_ne hq] using hcards)
  · rw [readLayout_saveLayout hset]
    exact hsame q hq

theorem Kept.changed (h : Kept mixed app) {reported : Option Layout}
    (hreported : ∀ updated, reported = some updated → Settled mixed p updated)
    (hstep : app.changed p reported = .ok app') : Kept mixed app' := by
  cases reported with
  | none => cases hstep
  | some updated =>
    obtain rfl := Except.ok.inj hstep
    have hupdated := hreported updated rfl
    have hensured := hupdated.ensureAllCards
    refine kept_saveLayout (fun q => ?_) h.read h.cached (hensured.symm ▸ hupdated) fun q hq => ?_
    · by_cases hqp : q = p
      · subst hqp
        simpa using hupdated
      · simpa [Function.update_of_ne hqp] using h.shown q
    · rw [hensured]
      by_cases hqp : q = p
      · subst hqp
        simp
      · simpa [Function.update_of_ne hqp, hqp] using h.same q hq

theorem Kept.resetLayout (h : Kept mixed app) (p : Page) : Kept mixed (app.resetLayout p) := by
  have hread : ∀ q, q.readLayout (app.resetLayout p).storage =
      if q = p then p.defaultLayout else q.readLayout app.storage := fun q => readLayout_update
  refine ⟨fun q => ?_, fun q => ?_, fun q l hl => ?_, fun q hq => ?_⟩
  · by_cases hqp : q = p
    · subst hqp
      simpa [App.resetLayout] using settled_defaultLayout q
    · simpa [App.resetLayout, Function.update_of_ne hqp] using h.shown q
  · rw [hread]
    split_ifs with hqp
    · subst hqp
      exact settled_defaultLayout q
    · exact h.read q
  · rw [hread]
    split_ifs with hqp
    · subst hqp
      simpa [App.resetLayout] using hl.symm
    · exact h.cached q l (by simpa [App.resetLayout, Function.update_of_ne hqp] using hl)
  · rw [hread]
    by_cases hqp : q = p
    · subst hqp
      simp [App.resetLayout]
    · simpa [App.resetLayout, Function.update_of_ne hqp, hqp] using h.same q hq

/-- A step keeps this; a resize that ends on a source's page needs a mixed overview. -/
theorem kept_step {action : PageAction} (h : Kept mixed app) (hallowed : app.Allowed action)
    (hmixed : action = .resizeEnded .sourceDetail → mixed = true)
    (hstep : app.step action = .ok app') : Kept mixed app' := by
  cases action with
  | opened p => exact Except.ok.inj hstep ▸ h.opened p
  | dropped p draggedId targetCol targetRow =>
    refine h.changed (p := p) (fun updated hupdated => ?_) hstep
    obtain ⟨list, hlist, rfl⟩ := Option.map_eq_some_iff.1 hupdated
    exact (h.shown p).edited (edited_droppedAt (h.shown p) hallowed.1 hlist) _
  | cycled p config =>
    refine h.changed (p := p) (fun updated hupdated => ?_) hstep
    obtain ⟨list, hlist, rfl⟩ := Option.map_eq_some_iff.1 hupdated
    exact (h.shown p).edited (edited_spanCycled (h.shown p) hallowed hlist) _
  | resized p config colsDelta rowsDelta =>
    refine h.changed (p := p) (fun updated hupdated => ?_) hstep
    obtain ⟨list, hlist, rfl⟩ := Option.map_eq_some_iff.1 hupdated
    exact (h.shown p).edited (edited_cornerDragged (h.shown p) hallowed hlist) _
  | resizeEnded p =>
    have hpage : p = .sourceDetail → mixed = true := fun hp => hmixed (hp ▸ rfl)
    obtain rfl := Except.ok.inj hstep
    refine kept_saveLayout h.shown h.read h.cached
      (settled_ensureAllCards_overview (h.shown p) hpage) fun q hq => ?_
    split_ifs with hoverview
    · subst hoverview
      have hown : p = .overview := by
        cases p with
        | overview => rfl
        | sourceDetail => simp [hpage rfl] at hq
      rw [hown, (h.shown .overview).ensureAllCards]
    · exact h.same q hq
  | saved =>
    have hshown := h.shown .sourceDetail
    obtain rfl := Except.ok.inj hstep
    have hensured := hshown.ensureAllCards
    refine kept_saveLayout h.shown h.read h.cached (hensured.symm ▸ hshown) fun q hq => ?_
    split_ifs with hdetail
    · rw [hdetail, hensured]
    · exact h.same q hq
  | reset p => exact Except.ok.inj hstep ▸ h.resetLayout p
  | restarted => exact Except.ok.inj hstep ▸ h.restarted

theorem kept_attempt {action : PageAction} (h : Kept mixed app) (hallowed : app.Allowed action)
    (hmixed : action = .resizeEnded .sourceDetail → mixed = true) :
    Kept mixed (attempt App.step app action) := by
  cases hstep : app.step action with
  | ok app' =>
    rw [attempt_ok hstep]
    exact kept_step h hallowed hmixed hstep
  | error e =>
    rw [attempt_error hstep]
    exact h

theorem kept_of_reached (hrun : Reached App.step App.Allowed {} app) : Kept true app :=
  hrun.invariant kept_fresh fun _ _ _ h hallowed => kept_step h hallowed fun _ => rfl

end

/-- No resize ends on a source's page. -/
def App.AllowedApart (app : App) (action : PageAction) : Prop :=
  app.Allowed action ∧ action ≠ .resizeEnded .sourceDetail

def usageCard : BentoCardConfig := ⟨"usage", 0, 1, 1, 1, "Altr Stream Usage"⟩

/-- The usage card of the overview is widened. -/
def widened : App := attempt App.step {} (.cycled .overview usageCard)

theorem reached_widened : Reached App.step App.AllowedApart {} widened :=
  have hcard : usageCard ∈ ({} : App).shown .overview := by decide
  Reached.start.step (PageAction.cycled .overview usageCard) ⟨hcard, nofun⟩

/-- In every run from a fresh install both pages show settled layouts, now and after a restart, and
the source's page shows the same after a restart. -/
theorem settled_of_reached {app : App} (hrun : Reached App.step App.Allowed {} app) :
    (∀ p, Settled true p (app.shown p) ∧ Settled true p (app.restarted.shown p)) ∧
      app.restarted.shown .sourceDetail = app.shown .sourceDetail := by
  have h := kept_of_reached hrun
  refine ⟨fun p => ⟨h.shown p, ?_⟩, ?_⟩
  · rw [shown_restarted]
    exact h.read p
  · rw [shown_restarted, h.same .sourceDetail (.inr rfl)]

theorem settled_of_reached_widened :
    (∀ p, Settled true p (widened.shown p) ∧ Settled true p (widened.restarted.shown p)) ∧
      widened.restarted.shown .sourceDetail = widened.shown .sourceDetail :=
  settled_of_reached (reached_widened.mono fun _ _ hapart => hapart.1)

/-- Apart from each other the pages show their own cards. -/
theorem Kept.length_shown {app : App} (h : Kept false app) (p : Page) :
    (app.shown p).length = p.defaultLayout.length := by
  have hids : (app.shown p).map BentoCardConfig.id = p.defaultLayout.map BentoCardConfig.id := by
    cases p <;> exact List.mem_singleton.1 (h.shown _).ids
  simpa using congrArg List.length hids

theorem kept_of_reached_apart {app : App} (hrun : Reached App.step App.AllowedApart {} app) :
    Kept false app :=
  hrun.invariant kept_fresh fun _ _ _ h hallowed =>
    kept_step h hallowed.1 fun haction => absurd haction hallowed.2

section
variable {app : App}

theorem storage_resizeEnded (p : Page) : (attempt App.step app (.resizeEnded p)).storage =
    (app.saveLayout .overview (app.shown p)).storage := rfl

/-- After a resize on a source's page the overview has that page's cards, and then its own as they
were by default, up to the rows. -/
theorem overview_resizeEnded (h : Kept true app) :
    (Page.overview.readLayout (attempt App.step app (.resizeEnded .sourceDetail)).storage).map
        (fun c => c.moveTo 0) =
      (app.shown .sourceDetail ++ Page.overview.defaultLayout).map fun c => c.moveTo 0 := by
  have hshown := h.shown .sourceDetail
  have hdefault := @settled_defaultLayout true .overview
  have hset := settled_ensureAllCards_overview hshown fun _ => rfl
  have hids : (app.shown .sourceDetail).map BentoCardConfig.id =
      Page.sourceDetail.defaultLayout.map BentoCardConfig.id := List.mem_singleton.1 hshown.ids
  have hwf : WellFormed (app.shown .sourceDetail ++ Page.overview.defaultLayout) := by
    refine ⟨?_, List.forall_mem_append.2 ⟨hshown.limits, hdefault.limits⟩⟩
    rw [List.map_append, hids]
    decide
  have hlength : (app.shown .sourceDetail ++ Page.overview.defaultLayout).length = 11 := by
    rw [List.length_append, ← List.length_map BentoCardConfig.id, hids]
    rfl
  have hresolved : Resolved none (app.shown .sourceDetail ++ Page.overview.defaultLayout) :=
    resolved_of_settlesWithin hwf (settlesWithin_of_length hwf (by rw [hlength]; decide))
  rw [storage_resizeEnded, readLayout_saveLayout hset, if_pos rfl,
    ensureAllCards_sourceDetail hshown]
  exact hresolved.cards

end

/-- In every run from a fresh install the arrangement of the overview is replaced when a resize ends
on a source's page, whether the overview is opened again or the app is started again. -/
theorem overview_replaced {app : App} (hrun : Reached App.step App.Allowed {} app) :
    ((attempt App.step app (.resizeEnded .sourceDetail)).opened .overview).shown .overview =
        (attempt App.step app (.resizeEnded .sourceDetail)).restarted.shown .overview ∧
      ((attempt App.step app (.resizeEnded .sourceDetail)).restarted.shown .overview).map
          (fun c => c.moveTo 0) =
        (app.shown .sourceDetail ++ Page.overview.defaultLayout).map fun c => c.moveTo 0 := by
  have h := kept_of_reached hrun
  have hallowed : app.Allowed (.resizeEnded .sourceDetail) := trivial
  have hreplaced := kept_attempt h hallowed fun _ => rfl
  refine ⟨?_, ?_⟩
  · rw [shown_restarted, App.opened, hreplaced.getLayoutSync]
    rfl
  · rw [shown_restarted]
    exact overview_resizeEnded h

theorem overview_replaced_widened :
    ((attempt App.step widened (.resizeEnded .sourceDetail)).restarted.shown .overview).map
        (fun c => c.moveTo 0) =
      (widened.shown .sourceDetail ++ Page.overview.defaultLayout).map fun c => c.moveTo 0 :=
  (overview_replaced (reached_widened.mono fun _ _ hapart => hapart.1)).2

/-- As long as no resize has ended on a source's page, the overview shows the same after one more
step and a restart, unless that step is such a resize. -/
theorem overview_restarted_iff {app : App} (hrun : Reached App.step App.AllowedApart {} app)
    {action : PageAction} (hallowed : app.Allowed action) :
    (attempt App.step app action).restarted.shown .overview =
      (attempt App.step app action).shown .overview ↔ action ≠ .resizeEnded .sourceDetail := by
  have h := kept_of_reached_apart hrun
  constructor
  · rintro heq rfl
    have hshown : (attempt App.step app (.resizeEnded .sourceDetail)).shown = app.shown := rfl
    have hmixed := kept_of_reached (hrun.mono fun _ _ hapart => hapart.1)
    have hlength := congrArg List.length (overview_resizeEnded hmixed)
    rw [← shown_restarted, heq, hshown, List.length_map, List.length_map, List.length_append,
      h.length_shown, h.length_shown] at hlength
    simp [Page.defaultLayout] at hlength
  · intro hne
    have hkept := kept_attempt h hallowed fun haction => absurd haction hne
    rw [shown_restarted, hkept.same .overview (.inl rfl)]

/-- The wide card is gone after a resize on a source's page. -/
theorem overview_restarted_iff_widened :
    (attempt App.step widened (.resizeEnded .sourceDetail)).restarted.shown .overview ≠
      (attempt App.step widened (.resizeEnded .sourceDetail)).shown .overview := fun heq =>
  have hallowed : widened.Allowed (.resizeEnded .sourceDetail) := trivial
  (overview_restarted_iff reached_widened hallowed).1 heq rfl

end AltrStream.Dashboard
