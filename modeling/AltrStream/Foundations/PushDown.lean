import Mathlib.Data.Fintype.Card
import Mathlib.Data.Finset.Max

/-! # Pushing items down until none overlap

Items of a positive height stand at rows, and some pairs of them clash. A visit of two items that
overlap puts one of them right below the other: the pinned item is never moved, and of two others
the upper one stays. A pass visits every pair of items, in any order. However the visits are
ordered, a pass settles an item for good or moves one out of the rows above the bottom of the pinned
item, so a bounded number of passes leaves no overlap.
-/
namespace AltrStream.Foundations.PushDown

/-- The items: which pairs clash, their heights and the one that is pinned. -/
structure Items (α : Type*) where
  clash : α → α → Prop
  height : α → ℕ
  pinned : Option α
  symm : ∀ {a b}, clash a b → clash b a
  height_pos : ∀ a, 0 < height a

abbrev Rows (α : Type*) := α → ℕ

section
variable {α : Type*} (I : Items α)

def Overlap (row : Rows α) (a b : α) : Prop :=
  a ≠ b ∧ I.clash a b ∧ row a < row b + I.height b ∧ row b < row a + I.height a

def Apart (row : Rows α) : Prop := ∀ a b, ¬Overlap I row a b

/-- The settled items overlap nothing, and every other item that can move is not above them. -/
structure Settled (I : Items α) (row : Rows α) (T : Finset α) : Prop where
  free : ∀ t ∈ T, I.pinned ≠ some t
  clear : ∀ t ∈ T, ∀ x, ¬Overlap I row t x
  above : ∀ t ∈ T, ∀ x, x ∉ T → I.pinned ≠ some x → row t ≤ row x

variable {I} {row row' : Rows α} {a b x : α}

theorem Overlap.symm (h : Overlap I row a b) : Overlap I row b a :=
  ⟨h.1.symm, I.symm h.2.1, h.2.2.2, h.2.2.1⟩

theorem overlap_comm : Overlap I row a b ↔ Overlap I row b a := ⟨Overlap.symm, Overlap.symm⟩

/-- An item that is clear of one above it stays clear of it however far it moves down. -/
theorem clear_down (hclear : ¬Overlap I row a x) (hle : row a ≤ row x) (ha : row' a = row a)
    (hx : row x ≤ row' x) : ¬Overlap I row' a x := by
  rintro ⟨hne, hclash, h1, h2⟩
  have hpos := I.height_pos x
  exact hclear ⟨hne, hclash, by omega, by omega⟩

theorem settled_empty : Settled I row ∅ where
  free := by simp
  clear := by simp
  above := by simp

end

section
variable {α : Type*} [DecidableEq α] (I : Items α)

/-- `u` pushes `l` below itself. -/
def Pushes (u l : α) (row row' : Rows α) : Prop :=
  Overlap I row u l ∧ I.pinned ≠ some l ∧ (I.pinned = some u ∨ row u ≤ row l) ∧
    row' = Function.update row l (row u + I.height u)

def Visit (a b : α) (row row' : Rows α) : Prop :=
  (¬Overlap I row a b ∧ row' = row) ∨ Pushes I a b row row' ∨ Pushes I b a row row'

/-- The visits of a list of pairs, one after the other. -/
inductive Visits : List (α × α) → Rows α → Rows α → Prop
  | nil (row : Rows α) : Visits [] row row
  | cons {p : α × α} {ps : List (α × α)} {row mid row' : Rows α} :
      Visit I p.1 p.2 row mid → Visits ps mid row' → Visits (p :: ps) row row'

/-- A pass visits every pair of different items. -/
def Pass (row row' : Rows α) : Prop :=
  ∃ ps : List (α × α), (∀ a b, a ≠ b → (a, b) ∈ ps ∨ (b, a) ∈ ps) ∧ Visits I ps row row'

inductive Passes : ℕ → Rows α → Rows α → Prop
  | zero (row : Rows α) : Passes 0 row row
  | succ {k : ℕ} {row mid row' : Rows α} :
      Pass I row mid → Passes k mid row' → Passes (k + 1) row row'

variable {I} {row row' : Rows α} {a b u l x : α}

/-! ## One push -/

theorem Pushes.row_pushed (h : Pushes I u l row row') : row' l = row u + I.height u := by
  rw [h.2.2.2, Function.update_self]

theorem Pushes.row_other (h : Pushes I u l row row') (hx : x ≠ l) : row' x = row x := by
  rw [h.2.2.2, Function.update_of_ne hx]

theorem Pushes.lt (h : Pushes I u l row row') : row l < row' l := by
  rw [h.row_pushed]
  exact h.1.2.2.2

theorem Pushes.le (h : Pushes I u l row row') : row ≤ row' := by
  intro x
  by_cases hx : x = l
  · subst hx
    exact h.lt.le
  · exact (h.row_other hx).ge

theorem Pushes.clear (h : Pushes I u l row row') : ¬Overlap I row' u l := by
  rintro ⟨-, -, -, h2⟩
  rw [h.row_pushed, h.row_other h.1.1] at h2
  omega

theorem Pushes.row_pinned {p : α} (h : Pushes I u l row row') (hp : I.pinned = some p) :
    row' p = row p := by
  apply h.row_other
  rintro rfl
  exact h.2.1 hp

theorem Visit.le (h : Visit I a b row row') : row ≤ row' := by
  rcases h with ⟨-, rfl⟩ | h | h
  · exact le_rfl
  · exact h.le
  · exact h.le

theorem Visit.clear (h : Visit I a b row row') : ¬Overlap I row' a b := by
  rcases h with ⟨hclear, rfl⟩ | h | h
  · exact hclear
  · exact h.clear
  · exact fun ho => h.clear ho.symm

theorem Visit.eq_of_clear (h : Visit I a b row row') (hclear : ¬Overlap I row a b) :
    row' = row := by
  rcases h with ⟨-, rfl⟩ | h | h
  · rfl
  · exact absurd h.1 hclear
  · exact absurd h.1.symm hclear

theorem Visits.eq_of_clear {ps : List (α × α)} (h : Visits I ps row row')
    (hclear : ∀ p ∈ ps, ¬Overlap I row p.1 p.2) : row' = row := by
  induction h with
  | nil => rfl
  | cons hvisit _ ih =>
    obtain rfl := hvisit.eq_of_clear (hclear _ List.mem_cons_self)
    exact ih fun p hp => hclear p (List.mem_cons_of_mem _ hp)

theorem Visits.of_append {ps qs : List (α × α)} (h : Visits I (ps ++ qs) row row') :
    ∃ mid, Visits I ps row mid ∧ Visits I qs mid row' := by
  induction ps generalizing row with
  | nil => exact ⟨row, .nil row, h⟩
  | cons p ps ih =>
    cases h with
    | cons hvisit hrest =>
      obtain ⟨mid, h1, h2⟩ := ih hrest
      exact ⟨mid, .cons hvisit h1, h2⟩

/-! ## What is settled stays settled -/

variable {T : Finset α}

theorem Settled.pusher_not_mem (hT : Settled I row T) (h : Pushes I u l row row') : u ∉ T :=
  fun hu => hT.clear u hu l h.1

theorem Settled.pushed_not_mem (hT : Settled I row T) (h : Pushes I u l row row') : l ∉ T :=
  fun hl => hT.clear l hl u h.1.symm

theorem Settled.push (hT : Settled I row T) (h : Pushes I u l row row') : Settled I row' T := by
  have hl := hT.pushed_not_mem h
  have hstay : ∀ t ∈ T, row' t = row t := by
    intro t ht
    apply h.row_other
    rintro rfl
    exact hl ht
  refine ⟨hT.free, ?_, ?_⟩
  · intro t ht x
    by_cases hx : x = l
    · subst hx
      exact clear_down (hT.clear t ht x) (hT.above t ht x hl h.2.1) (hstay t ht) (h.le x)
    · rintro ⟨h1, h2, h3, h4⟩
      rw [hstay t ht, h.row_other hx] at h3 h4
      exact hT.clear t ht x ⟨h1, h2, h3, h4⟩
  · intro t ht x hx hfree
    rw [hstay t ht]
    exact (hT.above t ht x hx hfree).trans (h.le x)

theorem Settled.visit (hT : Settled I row T) (h : Visit I a b row row') : Settled I row' T := by
  rcases h with ⟨-, rfl⟩ | h | h
  · exact hT
  · exact hT.push h
  · exact hT.push h

theorem Visits.settled {ps : List (α × α)} (h : Visits I ps row row') (hT : Settled I row T) :
    Settled I row' T := by
  induction h with
  | nil => exact hT
  | cons hvisit _ ih => exact ih (hT.visit hvisit)

/-! ## What a pass achieves -/

/-- Above the bottom of the pinned item. -/
def Upper (I : Items α) (row : Rows α) (x : α) : Prop :=
  ∃ p, I.pinned = some p ∧ row x < row p + I.height p

/-- An item that can move and is not settled. -/
def Loose (I : Items α) (T : Finset α) (x : α) : Prop := x ∉ T ∧ I.pinned ≠ some x

/-- In the middle of a pass: `μ` was the least row of a loose item, and `seen` are the pairs
visited so far. -/
structure Midway (I : Items α) (T : Finset α) (μ : ℕ) (start : Rows α) (seen : List (α × α))
    (row : Rows α) : Prop where
  settled : Settled I row T
  grown : start ≤ row
  pinned : ∀ p, I.pinned = some p → row p = start p
  floor : ∀ x, Loose I T x → μ ≤ row x
  clear : ∀ m, Loose I T m → row m = μ → ∀ x, (m, x) ∈ seen ∨ (x, m) ∈ seen → ¬Overlap I row m x
  atFloor : (∃ m, Loose I T m ∧ row m = μ) ∨ ∃ x, Loose I T x ∧ Upper I start x ∧ ¬Upper I row x

variable {μ : ℕ} {start : Rows α} {seen : List (α × α)}

theorem Pushes.loose (hT : Settled I row T) (h : Pushes I u l row row') : Loose I T l :=
  ⟨hT.pushed_not_mem h, h.2.1⟩

theorem Midway.upper_of_pushed (hm : Midway I T μ start seen row) (h : Pushes I u l row row')
    (hu : I.pinned = some u) : Upper I start l ∧ ¬Upper I row' l := by
  constructor
  · refine ⟨u, hu, ?_⟩
    rw [← hm.pinned u hu]
    exact (hm.grown l).trans_lt h.1.2.2.2
  · rintro ⟨p, hp, hlt⟩
    obtain rfl : u = p := Option.some.inj (hu.symm.trans hp)
    rw [h.row_pushed, h.row_pinned hp] at hlt
    omega

/-- The pushed item leaves the least row only if its pusher stays there or is the pinned one. -/
theorem Midway.push_atFloor (hm : Midway I T μ start seen row) (h : Pushes I u l row row') :
    (∃ m, Loose I T m ∧ row' m = μ) ∨
      ∃ x, Loose I T x ∧ Upper I start x ∧ ¬Upper I row' x := by
  rcases hm.atFloor with ⟨m, hloose, hrow⟩ | ⟨x, hloose, hstart, hnow⟩
  · by_cases hml : m = l
    · subst hml
      by_cases hu : I.pinned = some u
      · exact .inr ⟨m, hloose, hm.upper_of_pushed h hu⟩
      · have hul : Loose I T u := ⟨hm.settled.pusher_not_mem h, hu⟩
        have hle : row u ≤ row m := h.2.2.1.resolve_left hu
        refine .inl ⟨u, hul, ?_⟩
        rw [h.row_other h.1.1]
        exact le_antisymm (hle.trans hrow.le) (hm.floor u hul)
    · exact .inl ⟨m, hloose, (h.row_other hml).trans hrow⟩
  · refine .inr ⟨x, hloose, hstart, ?_⟩
    rintro ⟨p, hp, hlt⟩
    rw [h.row_pinned hp] at hlt
    exact hnow ⟨p, hp, (h.le x).trans_lt hlt⟩

theorem Midway.push (hm : Midway I T μ start seen row) (h : Pushes I u l row row') :
    Midway I T μ start seen row' where
  settled := hm.settled.push h
  grown := hm.grown.trans h.le
  pinned p hp := (h.row_pinned hp).trans (hm.pinned p hp)
  floor x hx := (hm.floor x hx).trans (h.le x)
  atFloor := hm.push_atFloor h
  clear m hloose hrow x hx := by
    have hlfloor := hm.floor l (Pushes.loose hm.settled h)
    have hml : m ≠ l := by
      rintro rfl
      have := h.lt
      omega
    have hrowm : row m = μ := (h.row_other hml).symm.trans hrow
    have hclear := hm.clear m hloose hrowm x hx
    by_cases hxl : x = l
    · subst hxl
      exact clear_down hclear (hrowm.le.trans hlfloor) (h.row_other hml) (h.le x)
    · rintro ⟨h1, h2, h3, h4⟩
      rw [h.row_other hml, h.row_other hxl] at h3 h4
      exact hclear ⟨h1, h2, h3, h4⟩

theorem Midway.visit (hm : Midway I T μ start seen row) (h : Visit I a b row row') :
    Midway I T μ start ((a, b) :: seen) row' := by
  have hmid : Midway I T μ start seen row' := by
    rcases h with ⟨-, rfl⟩ | h | h
    · exact hm
    · exact hm.push h
    · exact hm.push h
  refine { hmid with clear := ?_ }
  intro m hloose hrow x hx
  rcases hx with hx | hx
  · rcases List.mem_cons.1 hx with heq | hx
    · obtain ⟨rfl, rfl⟩ := Prod.mk.inj heq
      exact h.clear
    · exact hmid.clear m hloose hrow x (.inl hx)
  · rcases List.mem_cons.1 hx with heq | hx
    · obtain ⟨rfl, rfl⟩ := Prod.mk.inj heq
      exact fun ho => h.clear ho.symm
    · exact hmid.clear m hloose hrow x (.inr hx)

theorem Midway.visits {ps : List (α × α)} (h : Visits I ps row row')
    (hm : Midway I T μ start seen row) : Midway I T μ start (ps.reverse ++ seen) row' := by
  induction h generalizing seen with
  | nil => exact hm
  | cons hvisit _ ih => simpa using ih (hm.visit hvisit)

/-- A pass settles one more item, or moves a loose one out of the upper rows. -/
theorem Pass.progress (h : Pass I row row') (hT : Settled I row T) (hloose : ∃ x, Loose I T x)
    [Fintype α] : (∃ m, Loose I T m ∧ Settled I row' (insert m T)) ∨
      ∃ x, Loose I T x ∧ Upper I row x ∧ ¬Upper I row' x := by
  classical
  obtain ⟨ps, hall, hvisits⟩ := h
  let loose : Finset α := Finset.univ.filter (Loose I T)
  have hmem : ∀ x, x ∈ loose ↔ Loose I T x := by simp [loose]
  obtain ⟨x₀, hx₀⟩ := hloose
  obtain ⟨m₀, hm₀, hmin⟩ := loose.exists_min_image row ⟨x₀, (hmem x₀).2 hx₀⟩
  have hfirst : Midway I T (row m₀) row [] row := by
    refine ⟨hT, le_rfl, fun _ _ => rfl, ?_, ?_, .inl ⟨m₀, (hmem m₀).1 hm₀, rfl⟩⟩
    · exact fun x hx => hmin x ((hmem x).2 hx)
    · simp
  have hlast := Midway.visits hvisits hfirst
  rw [List.append_nil] at hlast
  rcases hlast.atFloor with ⟨m, hm, hrow⟩ | hup
  case inr => exact .inr hup
  refine .inl ⟨m, hm, ?_, ?_, ?_⟩
  · intro t ht
    rcases Finset.mem_insert.1 ht with rfl | ht
    · exact hm.2
    · exact hlast.settled.free t ht
  · intro t ht x
    rcases Finset.mem_insert.1 ht with rfl | ht
    · by_cases hne : t = x
      · exact fun ho => ho.1 hne
      · exact hlast.clear t hm hrow x (by simpa using hall t x hne)
    · exact hlast.settled.clear t ht x
  · intro t ht x hx hfree
    rw [Finset.mem_insert, not_or] at hx
    rcases Finset.mem_insert.1 ht with rfl | ht
    · rw [hrow]
      exact hlast.floor x ⟨hx.2, hfree⟩
    · exact hlast.settled.above t ht x hx.2 hfree

theorem Visits.le {ps : List (α × α)} (h : Visits I ps row row') : row ≤ row' := by
  induction h with
  | nil => exact le_rfl
  | cons hvisit _ ih => exact hvisit.le.trans ih

theorem Visit.row_pinned {p : α} (h : Visit I a b row row') (hp : I.pinned = some p) :
    row' p = row p := by
  rcases h with ⟨-, rfl⟩ | h | h
  · rfl
  · exact h.row_pinned hp
  · exact h.row_pinned hp

theorem Visits.row_pinned {ps : List (α × α)} {p : α} (h : Visits I ps row row')
    (hp : I.pinned = some p) : row' p = row p := by
  induction h with
  | nil => rfl
  | cons hvisit _ ih => exact ih.trans (hvisit.row_pinned hp)

theorem Passes.row_pinned {k : ℕ} {p : α} (h : Passes I k row row') (hp : I.pinned = some p) :
    row' p = row p := by
  induction h with
  | zero => rfl
  | succ hpass _ ih =>
    obtain ⟨ps, -, hvisits⟩ := hpass
    exact ih.trans (hvisits.row_pinned hp)

theorem Pass.upper (h : Pass I row row') (hx : Upper I row' x) : Upper I row x := by
  obtain ⟨ps, -, hvisits⟩ := h
  obtain ⟨p, hp, hlt⟩ := hx
  rw [hvisits.row_pinned hp] at hlt
  exact ⟨p, hp, (hvisits.le x).trans_lt hlt⟩

/-! ## How many passes are enough -/

variable [Fintype α]

open Classical in
/-- The loose items, those in the upper rows counted twice. -/
noncomputable def slack (I : Items α) (row : Rows α) (T : Finset α) : ℕ :=
  (Finset.univ.filter (Loose I T)).card +
    (Finset.univ.filter fun x => Loose I T x ∧ Upper I row x).card

theorem slack_lt (h : Pass I row row') (hT : Settled I row T) (hloose : ∃ x, Loose I T x) :
    ∃ T', Settled I row' T' ∧ slack I row' T' < slack I row T := by
  classical
  rcases h.progress hT hloose with ⟨m, hm, hT'⟩ | ⟨x, hx, hstart, hnow⟩
  · refine ⟨insert m T, hT', ?_⟩
    have hsub : ∀ y, Loose I (insert m T) y → Loose I T y :=
      fun y hy => ⟨fun hyT => hy.1 (Finset.mem_insert_of_mem hyT), hy.2⟩
    apply Nat.add_lt_add_of_lt_of_le
    · apply Finset.card_lt_card
      refine ⟨fun y hy => ?_, fun hback => ?_⟩
      · simp only [Finset.mem_filter_univ] at hy ⊢
        exact hsub y hy
      · have hin : m ∈ Finset.univ.filter (Loose I (insert m T)) :=
          hback (by simpa using hm)
        simp [Loose] at hin
    · apply Finset.card_le_card
      intro y hy
      simp only [Finset.mem_filter_univ] at hy ⊢
      exact ⟨hsub y hy.1, h.upper hy.2⟩
  · obtain ⟨ps, hall, hvisits⟩ := id h
    refine ⟨T, hvisits.settled hT, ?_⟩
    apply Nat.add_lt_add_left
    apply Finset.card_lt_card
    refine ⟨fun y hy => ?_, fun hback => ?_⟩
    · simp only [Finset.mem_filter_univ] at hy ⊢
      exact ⟨hy.1, h.upper hy.2⟩
    · have hin : x ∈ Finset.univ.filter fun y => Loose I T y ∧ Upper I row' y :=
        hback (by simpa using ⟨hx, hstart⟩)
      simp only [Finset.mem_filter_univ] at hin
      exact hnow hin.2

omit [DecidableEq α] in
theorem slack_eq_zero_of_not_loose (hloose : ¬∃ x, Loose I T x) : slack I row T = 0 := by
  have hno : ∀ x, ¬Loose I T x := fun x hx => hloose ⟨x, hx⟩
  simp [slack, hno]

/-- What is left to do after some passes. -/
theorem Passes.slack_le {k : ℕ} (h : Passes I k row row') (hT : Settled I row T) :
    ∃ T', Settled I row' T' ∧ slack I row' T' ≤ slack I row T - k := by
  induction h generalizing T with
  | zero => exact ⟨T, hT, le_rfl⟩
  | @succ k row mid row' hpass _ ih =>
    by_cases hloose : ∃ x, Loose I T x
    · obtain ⟨T₁, hT₁, hlt⟩ := slack_lt hpass hT hloose
      obtain ⟨T₂, hT₂, hle⟩ := ih hT₁
      exact ⟨T₂, hT₂, by omega⟩
    · obtain ⟨ps, -, hvisits⟩ := hpass
      obtain ⟨T₂, hT₂, hle⟩ := ih (hvisits.settled hT)
      rw [slack_eq_zero_of_not_loose hloose] at hle
      exact ⟨T₂, hT₂, by omega⟩

omit [DecidableEq α] [Fintype α] in
/-- With all items settled but at most one, none overlap. -/
theorem Settled.apart (hT : Settled I row T)
    (hone : ∀ a b, a ≠ b → a ∈ T ∨ b ∈ T) : Apart I row := by
  intro a b ho
  rcases hone a b ho.1 with ha | hb
  · exact hT.clear a ha b ho
  · exact hT.clear b hb a ho.symm

theorem slack_empty_le_of_pinned (row : Rows α) {p : α} (hp : I.pinned = some p) :
    slack I row ∅ ≤ 2 * (Fintype.card α - 1) := by
  classical
  have hle : ∀ P : α → Prop, (Finset.univ.filter fun x => Loose I ∅ x ∧ P x).card ≤
      Fintype.card α - 1 := by
    intro P
    rw [← Finset.card_univ, ← Finset.card_erase_of_mem (Finset.mem_univ p)]
    apply Finset.card_le_card
    intro x hx
    simp only [Finset.mem_filter_univ] at hx
    refine Finset.mem_erase.2 ⟨?_, Finset.mem_univ x⟩
    rintro rfl
    exact hx.1.2 hp
  have h1 := hle fun _ => True
  have h2 := hle (Upper I row)
  simp only [and_true] at h1
  unfold slack
  convert Nat.add_le_add h1 h2 using 1
  omega

/-- After two passes for each other item none overlap, also with a pinned one. -/
theorem Passes.apart_of_pinned {k : ℕ} {p : α} (h : Passes I k row row')
    (hp : I.pinned = some p) (hk : 2 * (Fintype.card α - 1) ≤ k) : Apart I row' := by
  classical
  obtain ⟨T, hT, hle⟩ := h.slack_le settled_empty
  have hzero : slack I row' T = 0 := by
    have := slack_empty_le_of_pinned row hp
    omega
  have hno : ∀ x, ¬Loose I T x := by
    intro x hx
    have hpos : 0 < (Finset.univ.filter (Loose I T)).card :=
      Finset.card_pos.2 ⟨x, by simpa using hx⟩
    unfold slack at hzero
    omega
  refine hT.apart fun a b hab => ?_
  by_contra hnot
  rw [not_or] at hnot
  have ha : I.pinned = some a := not_not.1 fun hf => hno a ⟨hnot.1, hf⟩
  have hb : I.pinned = some b := not_not.1 fun hf => hno b ⟨hnot.2, hf⟩
  exact hab (Option.some.inj (ha.symm.trans hb))

/-- With no pinned item, one pass less than there are items is enough. -/
theorem Passes.apart_of_free {k : ℕ} (h : Passes I k row row') (hfree : I.pinned = none)
    (hk : Fintype.card α ≤ k + 1) : Apart I row' := by
  classical
  obtain ⟨T, hT, hle⟩ := h.slack_le settled_empty
  have hslack : ∀ (r : Rows α) (S : Finset α),
      slack I r S = (Finset.univ.filter (Loose I S)).card := by
    intro r S
    simp [slack, Upper, hfree]
  rw [hslack, hslack] at hle
  have hall : (Finset.univ.filter (Loose I ∅)).card ≤ Fintype.card α := Finset.card_le_univ _
  refine hT.apart fun a b hab => ?_
  by_contra hnot
  rw [not_or] at hnot
  have hloose : ∀ x, x ∉ T → x ∈ Finset.univ.filter (Loose I T) := by
    intro x hx
    simp [Loose, hx, hfree]
  have htwo : 1 < (Finset.univ.filter (Loose I T)).card :=
    Finset.one_lt_card.2 ⟨a, hloose a hnot.1, b, hloose b hnot.2, hab⟩
  omega

end

end AltrStream.Foundations.PushDown
