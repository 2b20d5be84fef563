import AltrStream.Dashboard.Compaction
import AltrStream.Foundations.PushDown
import Mathlib.Data.List.OfFn
import Mathlib.Data.List.FinRange

/-! # The passes push items down

A pass over the cards of a layout is a pass over the items at its positions: each has the height of
its card, two clash if their cards have a column in common, and the fixed card is the pinned item.
-/
namespace AltrStream.Dashboard
open Foundations

/-- A layout with distinct ids whose spans are within the limits. -/
structure WellFormed (l : Layout) : Prop where
  ids : (l.map BentoCardConfig.id).Nodup
  limits : ∀ c ∈ l, c.WithinLimits

namespace BentoCollisionResolver
open BentoCardConfig

variable {l : Layout} (fixedId : Option String)

/-- The position of the fixed card. -/
def fixedPosition (l : Layout) : Option (Fin l.length) :=
  (List.finRange l.length).find? fun i => some (l.get i).id = fixedId

/-- The positions of a layout as items. -/
def items (hl : WellFormed l) : PushDown.Items (Fin l.length) where
  clash i j := Columns (l.get i) (l.get j)
  height i := (l.get i).rowSpan
  pinned := fixedPosition fixedId l
  symm h := ⟨h.2, h.1⟩
  height_pos i := (hl.limits _ (List.get_mem l i)).rowSpan_pos

/-- The cards of a layout at other rows. -/
def place (l : Layout) (ρ : PushDown.Rows (Fin l.length)) : Layout :=
  List.ofFn fun i => (l.get i).moveTo (ρ i)

/-- The rows of a layout. -/
def rows (l : Layout) : PushDown.Rows (Fin l.length) := fun i => (l.get i).row

variable {fixedId} {ρ ρ' : PushDown.Rows (Fin l.length)} {i j : Fin l.length}

@[simp] theorem length_place : (place l ρ).length = l.length := List.length_ofFn

@[simp] theorem getElem?_place : (place l ρ)[i.val]? = some ((l.get i).moveTo (ρ i)) := by
  simp [place]

@[simp] theorem place_rows : place l (rows l) = l := by
  unfold place rows
  simp only [moveTo_self]
  exact List.ofFn_get l

theorem mem_place {c : BentoCardConfig} :
    c ∈ place l ρ ↔ ∃ i, (l.get i).moveTo (ρ i) = c := by
  unfold place
  rw [List.mem_ofFn]

theorem set_place (r : ℕ) :
    (place l ρ).set j ((l.get j).moveTo r) = place l (Function.update ρ j r) := by
  apply List.ext_getElem?
  intro n
  by_cases hn : n < l.length
  · obtain ⟨i, rfl⟩ : ∃ i : Fin l.length, i.val = n := ⟨⟨n, hn⟩, rfl⟩
    by_cases hij : i = j
    · subst hij
      rw [List.getElem?_set_self (by simp), getElem?_place, Function.update_self]
    · have hne : j.val ≠ i.val := fun h => hij (Fin.ext h.symm)
      rw [List.getElem?_set_ne hne, getElem?_place, getElem?_place, Function.update_of_ne hij]
  · rw [List.getElem?_eq_none (by simpa using hn), List.getElem?_eq_none (by simpa using hn)]

theorem get_id_inj (hl : WellFormed l) : (l.get i).id = (l.get j).id ↔ i = j := by
  constructor
  · intro h
    have hget := List.nodup_iff_injective_get.1 hl.ids
    have hi : i.val < (l.map BentoCardConfig.id).length := by simp
    have hj : j.val < (l.map BentoCardConfig.id).length := by simp
    have := @hget ⟨i, hi⟩ ⟨j, hj⟩ (by simpa using h)
    exact Fin.ext (Fin.mk.inj this)
  · rintro rfl
    rfl

theorem fixedPosition_eq_some (hl : WellFormed l) :
    fixedPosition fixedId l = some i ↔ some (l.get i).id = fixedId := by
  constructor
  · intro h
    simpa using List.find?_some h
  · intro h
    have hsome : (fixedPosition fixedId l).isSome := by
      unfold fixedPosition
      rw [List.find?_isSome]
      exact ⟨i, List.mem_finRange i, by simpa using h⟩
    obtain ⟨j, hj⟩ := Option.isSome_iff_exists.1 hsome
    have hid : some (l.get j).id = fixedId := by simpa using List.find?_some hj
    rw [hj, (get_id_inj hl).1 (Option.some.inj (hid.trans h.symm))]

theorem overlap_iff (hl : WellFormed l) :
    PushDown.Overlap (items fixedId hl) ρ i j ↔
      itemsOverlap ((l.get i).moveTo (ρ i)) ((l.get j).moveTo (ρ j)) = true := by
  rw [itemsOverlap_iff]
  refine and_congr ?_ Iff.rfl
  exact (not_congr (get_id_inj hl)).symm

/-- What is done with two overlapping cards is a push. -/
theorem exists_pushed (hl : WellFormed l) (ho : PushDown.Overlap (items fixedId hl) ρ i j) :
    ∃ ρ', pushed fixedId (place l ρ) i j ((l.get i).moveTo (ρ i)) ((l.get j).moveTo (ρ j)) =
      place l ρ' ∧ PushDown.Visit (items fixedId hl) i j ρ ρ' := by
  have hcopy : ∀ (k : Fin l.length) (s r : ℕ),
      ((l.get k).moveTo s).copyWith { row := some r } = (l.get k).moveTo r := by
    intro k s r
    rw [copyWith_row ((withinLimits_moveTo s).2 (hl.limits _ (List.get_mem l k))), moveTo_moveTo]
  have hpin : ∀ k : Fin l.length,
      (items fixedId hl).pinned = some k ↔ some (l.get k).id = fixedId :=
    fun k => fixedPosition_eq_some hl
  have hne : ∀ {a b : Fin l.length}, a ≠ b → (items fixedId hl).pinned = some a →
      (items fixedId hl).pinned ≠ some b := by
    intro a b hab ha hb
    exact hab (Option.some.inj (ha.symm.trans hb))
  unfold pushed
  simp only [hcopy, moveTo_id, moveTo_row, moveTo_rowSpan, set_place, ← hpin]
  by_cases hi : (items fixedId hl).pinned = some i
  · rw [if_pos hi]
    exact ⟨_, rfl, .inr (.inl ⟨ho, hne ho.1 hi, .inl hi, rfl⟩)⟩
  rw [if_neg hi]
  by_cases hj : (items fixedId hl).pinned = some j
  · rw [if_pos hj]
    exact ⟨_, rfl, .inr (.inr ⟨ho.symm, hi, .inl hj, rfl⟩)⟩
  rw [if_neg hj]
  by_cases hlt : ρ i < ρ j
  · rw [if_pos hlt]
    exact ⟨_, rfl, .inr (.inl ⟨ho, hj, .inr hlt.le, rfl⟩)⟩
  rw [if_neg hlt]
  by_cases hgt : ρ j < ρ i
  · rw [if_pos hgt]
    exact ⟨_, rfl, .inr (.inr ⟨ho.symm, hi, .inr hgt.le, rfl⟩)⟩
  · rw [if_neg hgt]
    exact ⟨_, rfl, .inr (.inl ⟨ho, hj, .inr (not_lt.1 hgt), rfl⟩)⟩

/-- One turn of the inner loop is a visit, and it sets the flag if the two overlapped. -/
theorem exists_visit (fixedId : Option String) (hl : WellFormed l) (b : Bool)
    (ρ : PushDown.Rows (Fin l.length)) (i j : Fin l.length) :
    ∃ b' ρ', visit fixedId (b, place l ρ) i j = (b', place l ρ') ∧
      PushDown.Visit (items fixedId hl) i j ρ ρ' ∧
      (b' = false ↔ b = false ∧ ¬PushDown.Overlap (items fixedId hl) ρ i j) := by
  by_cases ho : PushDown.Overlap (items fixedId hl) ρ i j
  · obtain ⟨ρ', hpush, hvisit⟩ := exists_pushed hl ho
    refine ⟨true, ρ', ?_, hvisit, by simp [ho]⟩
    have hne : i.val ≠ j.val := fun h => ho.1 (Fin.ext h)
    unfold visit
    simp only [getElem?_place]
    rw [if_neg hne, if_pos ((overlap_iff hl).1 ho), hpush]
  · refine ⟨b, ρ, ?_, .inl ⟨ho, rfl⟩, by simp [ho]⟩
    have hno := mt (overlap_iff hl).2 ho
    unfold visit
    simp only [getElem?_place]
    rw [if_neg hno, ite_self]

/-- The positions in the order of the two loops. -/
def pairs (n : ℕ) : List (Fin n × Fin n) :=
  (List.finRange n).flatMap fun i => (List.finRange n).map fun j => (i, j)

theorem mem_pairs {n : ℕ} (i j : Fin n) : (i, j) ∈ pairs n := by
  unfold pairs
  exact List.mem_flatMap.2 ⟨i, List.mem_finRange i, List.mem_map.2 ⟨j, List.mem_finRange j, rfl⟩⟩

theorem pass_eq_foldl (list : Layout) {n : ℕ} (hn : list.length = n) :
    pass fixedId list =
      (pairs n).foldl (fun s p => visit fixedId s p.1.val p.2.val) (false, list) := by
  subst hn
  unfold pass pairs
  rw [List.foldl_flatMap, ← List.map_coe_finRange_eq_range, List.foldl_map]
  simp only [List.foldl_map]

theorem exists_visits (fixedId : Option String) (hl : WellFormed l)
    (ps : List (Fin l.length × Fin l.length)) (b : Bool) (ρ : PushDown.Rows (Fin l.length)) :
    ∃ b' ρ', ps.foldl (fun s p => visit fixedId s p.1.val p.2.val) (b, place l ρ) =
        (b', place l ρ') ∧ PushDown.Visits (items fixedId hl) ps ρ ρ' ∧
      (b' = false ↔ b = false ∧ ∀ p ∈ ps, ¬PushDown.Overlap (items fixedId hl) ρ p.1 p.2) := by
  induction ps generalizing b ρ with
  | nil => exact ⟨b, ρ, rfl, .nil ρ, by simp⟩
  | cons p ps ih =>
    obtain ⟨b₁, ρ₁, hfold₁, hvisit, hflag₁⟩ := exists_visit fixedId hl b ρ p.1 p.2
    obtain ⟨b₂, ρ₂, hfold₂, hvisits, hflag₂⟩ := ih b₁ ρ₁
    refine ⟨b₂, ρ₂, ?_, .cons hvisit hvisits, ?_⟩
    · rw [List.foldl_cons, hfold₁, hfold₂]
    · rw [hflag₂, hflag₁, List.forall_mem_cons, and_assoc]
      refine and_congr_right fun _ => and_congr_right fun hclear => ?_
      obtain rfl : ρ₁ = ρ := hvisit.eq_of_clear hclear
      rfl

/-- A pass over the cards is a pass over the items, and its flag tells if any overlapped. -/
theorem exists_pass (fixedId : Option String) (hl : WellFormed l)
    (ρ : PushDown.Rows (Fin l.length)) :
    ∃ b ρ', pass fixedId (place l ρ) = (b, place l ρ') ∧
      PushDown.Pass (items fixedId hl) ρ ρ' ∧
      (b = false ↔ PushDown.Apart (items fixedId hl) ρ) := by
  obtain ⟨b, ρ', hfold, hvisits, hflag⟩ :=
    exists_visits fixedId hl (pairs l.length) false ρ
  refine ⟨b, ρ', ?_, ⟨pairs l.length, fun i j _ => .inl (mem_pairs i j), hvisits⟩, ?_⟩
  · rw [pass_eq_foldl _ length_place, hfold]
  · rw [hflag]
    constructor
    · exact fun h i j => h.2 (i, j) (mem_pairs i j)
    · exact fun h => ⟨rfl, fun p _ => h p.1 p.2⟩

/-! ## Layouts in which no two cards overlap -/

/-- No two cards overlap. -/
def NoOverlap (l : Layout) : Prop := ∀ a ∈ l, ∀ b ∈ l, itemsOverlap a b = false

theorem noOverlap_place (fixedId : Option String) (hl : WellFormed l) :
    NoOverlap (place l ρ) ↔ PushDown.Apart (items fixedId hl) ρ := by
  constructor
  · intro h i j ho
    have := h _ (mem_place.2 ⟨i, rfl⟩) _ (mem_place.2 ⟨j, rfl⟩)
    rw [(overlap_iff hl).1 ho] at this
    exact Bool.noConfusion this
  · intro h a ha b hb
    obtain ⟨i, rfl⟩ := mem_place.1 ha
    obtain ⟨j, rfl⟩ := mem_place.1 hb
    rw [← Bool.not_eq_true]
    exact fun ho => h i j ((overlap_iff hl).2 ho)

/-- The layout after one pass. -/
def passed (fixedId : Option String) (l : Layout) : Layout := (pass fixedId l).2

/-- Some number of passes, and not more than `n`, leaves no overlap. -/
def SettlesWithin (n : ℕ) (fixedId : Option String) (l : Layout) : Prop :=
  ∃ k ≤ n, NoOverlap ((passed fixedId)^[k] l)

/-- The loop with `n` passes left ends without overlaps iff the layout settles within `n`. -/
theorem noOverlap_pushLoop (fixedId : Option String) (hl : WellFormed l) (n : ℕ)
    (ρ : PushDown.Rows (Fin l.length)) :
    NoOverlap (pushLoop fixedId n (place l ρ)) ↔ SettlesWithin n fixedId (place l ρ) := by
  induction n generalizing ρ with
  | zero =>
    constructor
    · exact fun h => ⟨0, le_rfl, h⟩
    · rintro ⟨k, hk, h⟩
      obtain rfl : k = 0 := Nat.le_zero.1 hk
      exact h
  | succ n ih =>
    obtain ⟨b, ρ', hpass, hitems, hflag⟩ := exists_pass fixedId hl ρ
    have hpassed : passed fixedId (place l ρ) = place l ρ' := congrArg Prod.snd hpass
    have hloop : pushLoop fixedId (n + 1) (place l ρ) =
        if b then pushLoop fixedId n (place l ρ') else place l ρ' := by
      rw [pushLoop, hpass]
    rw [hloop]
    by_cases hb : b = false
    · have hapart := hflag.1 hb
      have hno : NoOverlap (place l ρ) := (noOverlap_place fixedId hl).2 hapart
      obtain ⟨ps, -, hvisits⟩ := hitems
      obtain rfl : ρ' = ρ := hvisits.eq_of_clear fun p _ => hapart p.1 p.2
      rw [hb]
      exact ⟨fun _ => ⟨0, Nat.zero_le _, hno⟩, fun _ => hno⟩
    · have htrue : b = true := by simpa using hb
      rw [if_pos htrue, ih ρ']
      constructor
      · rintro ⟨k, hk, h⟩
        refine ⟨k + 1, Nat.succ_le_succ hk, ?_⟩
        rw [Function.iterate_succ_apply, hpassed]
        exact h
      · rintro ⟨k, hk, h⟩
        cases k with
        | zero => exact absurd (hflag.2 ((noOverlap_place fixedId hl).1 h)) hb
        | succ k =>
          rw [Function.iterate_succ_apply, hpassed] at h
          exact ⟨k, Nat.le_of_succ_le_succ hk, h⟩

theorem exists_pushLoop (fixedId : Option String) (hl : WellFormed l) (n : ℕ)
    (ρ : PushDown.Rows (Fin l.length)) :
    ∃ k ρ', pushLoop fixedId n (place l ρ) = place l ρ' ∧
      PushDown.Passes (items fixedId hl) k ρ ρ' := by
  induction n generalizing ρ with
  | zero => exact ⟨0, ρ, rfl, .zero ρ⟩
  | succ n ih =>
    obtain ⟨b, ρ₁, hpass, hitems, -⟩ := exists_pass fixedId hl ρ
    rw [pushLoop, hpass]
    cases b with
    | false => exact ⟨1, ρ₁, rfl, .succ hitems (.zero ρ₁)⟩
    | true =>
      obtain ⟨k, ρ₂, hloop, hpasses⟩ := ih ρ₁
      exact ⟨k + 1, ρ₂, hloop, .succ hitems hpasses⟩

theorem exists_iterate (fixedId : Option String) (hl : WellFormed l) (k : ℕ)
    (ρ : PushDown.Rows (Fin l.length)) :
    ∃ ρ', (passed fixedId)^[k] (place l ρ) = place l ρ' ∧
      PushDown.Passes (items fixedId hl) k ρ ρ' := by
  induction k generalizing ρ with
  | zero => exact ⟨ρ, rfl, .zero ρ⟩
  | succ k ih =>
    obtain ⟨b, ρ₁, hpass, hitems, -⟩ := exists_pass fixedId hl ρ
    obtain ⟨ρ₂, hiter, hpasses⟩ := ih ρ₁
    have hpassed : passed fixedId (place l ρ) = place l ρ₁ := congrArg Prod.snd hpass
    refine ⟨ρ₂, ?_, .succ hitems hpasses⟩
    rw [Function.iterate_succ_apply, hpassed, hiter]

/-! ## How many cards are settled for sure -/

/-- With a fixed card, two passes for each other card are enough. -/
theorem settlesWithin_of_length (hl : WellFormed l) {n : ℕ} (hn : 2 * (l.length - 1) ≤ n) :
    SettlesWithin n fixedId l := by
  obtain ⟨ρ', hiter, hpasses⟩ := exists_iterate fixedId hl n (rows l)
  rw [place_rows] at hiter
  refine ⟨n, le_rfl, ?_⟩
  rw [hiter, noOverlap_place fixedId hl]
  cases hpin : (items fixedId hl).pinned with
  | some p => exact hpasses.apart_of_pinned hpin (by simpa using hn)
  | none => exact hpasses.apart_of_free hpin (by simp; omega)

/-- Without a fixed card among them, one pass less than there are cards is enough. -/
theorem settlesWithin_of_free (hl : WellFormed l) (hfree : ∀ c ∈ l, some c.id ≠ fixedId) {n : ℕ}
    (hn : l.length ≤ n + 1) : SettlesWithin n fixedId l := by
  obtain ⟨ρ', hiter, hpasses⟩ := exists_iterate fixedId hl n (rows l)
  rw [place_rows] at hiter
  refine ⟨n, le_rfl, ?_⟩
  rw [hiter, noOverlap_place fixedId hl]
  refine hpasses.apart_of_free ?_ (by simpa using hn)
  cases hpin : (items fixedId hl).pinned with
  | none => rfl
  | some p =>
    exact absurd ((fixedPosition_eq_some hl).1 hpin) (hfree _ (List.get_mem l p))

end BentoCollisionResolver

end AltrStream.Dashboard
