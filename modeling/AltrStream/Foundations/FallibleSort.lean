import AltrStream.Foundations.Checks
import Mathlib.Data.List.Pairwise
import Mathlib.Order.Lattice

/-! # Sorting with a comparison that can fail

A stable sort that fails when one of its comparisons does. Where the comparisons that give an
answer follow a key, and two that give one give a third between them, the sort succeeds exactly if
any two elements can be compared.
-/
namespace AltrStream.Foundations

variable {α κ ε : Type}

/-- The element goes in front of the first one that comes after it. -/
def insertSorted (lt : α → α → Except ε Bool) (x : α) : List α → Except ε (List α)
  | [] => .ok [x]
  | y :: ys => do
    if ← lt x y then return x :: y :: ys
    else return y :: (← insertSorted lt x ys)

/-- `list.sort` -/
def sort (lt : α → α → Except ε Bool) (l : List α) : Except ε (List α) :=
  l.foldlM (fun sorted x => insertSorted lt x sorted) []

/-- The comparison does not fail. -/
def Compares (lt : α → α → Except ε Bool) (a b : α) : Prop := ∃ less, lt a b = .ok less

/-- The comparison follows the key, on elements of a kind. -/
structure FollowsKey [LinearOrder κ] (lt : α → α → Except ε Bool) (key : α → κ) (good : α → Prop) :
    Prop where
  answer : ∀ {a b less}, good a → good b → lt a b = .ok less → (less = true ↔ key a < key b)
  refl : ∀ {a}, good a → Compares lt a a
  symm : ∀ {a b}, good a → good b → Compares lt a b → Compares lt b a
  trans : ∀ {a b c}, good a → good b → good c → key a ≤ key b → key b ≤ key c →
    Compares lt a b → Compares lt b c → Compares lt a c

/-- The first element does not come after the second, and they can be compared. -/
def Upto [LinearOrder κ] (lt : α → α → Except ε Bool) (key : α → κ) (a b : α) : Prop :=
  key a ≤ key b ∧ Compares lt a b

variable [LinearOrder κ] {lt : α → α → Except ε Bool} {key : α → κ} {good : α → Prop}

theorem insertSorted_eq_ok (hf : FollowsKey lt key good) {x : α} {l sorted : List α} (hx : good x)
    (hgood : ∀ a ∈ l, good a) (hl : l.Pairwise (Upto lt key)) (h : insertSorted lt x l = .ok sorted) :
    sorted.Perm (x :: l) ∧ sorted.Pairwise (Upto lt key) := by
  induction l generalizing sorted with
  | nil =>
    cases h
    exact ⟨.refl _, List.pairwise_singleton _ _⟩
  | cons y ys ih =>
    obtain ⟨hy, hys⟩ := List.forall_mem_cons.1 hgood
    obtain ⟨hfirst, hrest⟩ := List.pairwise_cons.1 hl
    obtain ⟨less, hless, h⟩ := bind_eq_ok.1 h
    have hkeys := hf.answer hx hy hless
    cases less with
    | true =>
      cases h
      have hlt := hkeys.1 rfl
      refine ⟨.refl _, List.pairwise_cons.2 ⟨?_, hl⟩⟩
      intro b hb
      rcases List.mem_cons.1 hb with rfl | hb
      · exact ⟨hlt.le, true, hless⟩
      · obtain ⟨hle, hanswer⟩ := hfirst b hb
        exact ⟨hlt.le.trans hle, hf.trans hx hy (hys b hb) hlt.le hle ⟨true, hless⟩ hanswer⟩
    | false =>
      obtain ⟨inserted, hinserted, heq⟩ := bind_eq_ok.1 h
      obtain rfl := pure_eq_ok.1 heq
      have hle : key y ≤ key x := le_of_not_gt fun hlt => Bool.false_ne_true (hkeys.2 hlt)
      obtain ⟨hperm, hsorted⟩ := ih hys hrest hinserted
      refine ⟨(hperm.cons y).trans (.swap x y ys), List.pairwise_cons.2 ⟨?_, hsorted⟩⟩
      intro b hb
      rcases List.mem_cons.1 (hperm.mem_iff.1 hb) with rfl | hb
      · exact ⟨hle, hf.symm hx hy ⟨false, hless⟩⟩
      · exact hfirst b hb

theorem insertSorted_succeeds {x : α} {l : List α} (h : ∀ y ∈ l, Compares lt x y) :
    ∃ sorted, insertSorted lt x l = .ok sorted := by
  induction l with
  | nil => exact ⟨[x], rfl⟩
  | cons y ys ih =>
    obtain ⟨⟨less, hless⟩, hys⟩ := List.forall_mem_cons.1 h
    obtain ⟨inserted, hinserted⟩ := ih hys
    cases less with
    | true => exact ⟨x :: y :: ys, bind_eq_ok.2 ⟨true, hless, rfl⟩⟩
    | false =>
      exact ⟨y :: inserted, bind_eq_ok.2 ⟨false, hless, bind_eq_ok.2 ⟨inserted, hinserted, rfl⟩⟩⟩

/-- What is sorted has the same elements, in the order of the key, and any two can be compared. -/
theorem sort_eq_ok (hf : FollowsKey lt key good) {l sorted : List α} (hgood : ∀ a ∈ l, good a)
    (h : sort lt l = .ok sorted) : sorted.Perm l ∧ sorted.Pairwise (Upto lt key) := by
  have hfold : ∀ {l acc sorted : List α}, (∀ a ∈ acc, good a) → (∀ a ∈ l, good a) →
      acc.Pairwise (Upto lt key) →
      l.foldlM (fun sorted x => insertSorted lt x sorted) acc = .ok sorted →
      sorted.Perm (acc ++ l) ∧ sorted.Pairwise (Upto lt key) := by
    intro l
    induction l with
    | nil =>
      intro acc sorted _ _ hacc h
      cases h
      exact ⟨by rw [List.append_nil], hacc⟩
    | cons x l ih =>
      intro acc sorted hgoodAcc hgood hacc h
      obtain ⟨hx, hl⟩ := List.forall_mem_cons.1 hgood
      rw [List.foldlM_cons] at h
      obtain ⟨inserted, hinserted, h⟩ := bind_eq_ok.1 h
      obtain ⟨hperm, hpairs⟩ := insertSorted_eq_ok hf hx hgoodAcc hacc hinserted
      have hgoodInserted : ∀ a ∈ inserted, good a := by
        intro a ha
        rcases List.mem_cons.1 (hperm.mem_iff.1 ha) with rfl | ha
        · exact hx
        · exact hgoodAcc a ha
      obtain ⟨hsorted, hpairs⟩ := ih hgoodInserted hl hpairs h
      refine ⟨hsorted.trans ((hperm.append_right l).trans ?_), hpairs⟩
      exact List.perm_middle.symm
  exact @hfold l [] sorted (by simp) hgood .nil h

theorem sort_succeeds (hf : FollowsKey lt key good) {l : List α} (hgood : ∀ a ∈ l, good a)
    (h : ∀ a ∈ l, ∀ b ∈ l, Compares lt a b) : ∃ sorted, sort lt l = .ok sorted := by
  have hfold : ∀ {rest acc : List α}, (∀ a ∈ acc, a ∈ l) → (∀ a ∈ rest, a ∈ l) →
      acc.Pairwise (Upto lt key) →
      ∃ sorted, rest.foldlM (fun sorted x => insertSorted lt x sorted) acc = .ok sorted := by
    intro rest
    induction rest with
    | nil => exact fun _ _ _ => ⟨_, rfl⟩
    | cons x rest ih =>
      intro acc hacc hrest hpairs
      obtain ⟨hx, hrest⟩ := List.forall_mem_cons.1 hrest
      obtain ⟨inserted, hinserted⟩ := insertSorted_succeeds fun y hy => h x hx y (hacc y hy)
      obtain ⟨hperm, hpairs⟩ :=
        insertSorted_eq_ok hf (hgood x hx) (fun a ha => hgood a (hacc a ha)) hpairs hinserted
      have hmem : ∀ a ∈ inserted, a ∈ l := by
        intro a ha
        rcases List.mem_cons.1 (hperm.mem_iff.1 ha) with rfl | ha
        · exact hx
        · exact hacc a ha
      obtain ⟨sorted, hsorted⟩ := ih hmem hrest hpairs
      exact ⟨sorted, by rw [List.foldlM_cons]; exact bind_eq_ok.2 ⟨inserted, hinserted, hsorted⟩⟩
  exact @hfold l [] (by simp) (fun a ha => ha) .nil

theorem sort_succeeds_iff (hf : FollowsKey lt key good) {l : List α} (hgood : ∀ a ∈ l, good a) :
    (∃ sorted, sort lt l = .ok sorted) ↔ ∀ a ∈ l, ∀ b ∈ l, Compares lt a b := by
  refine ⟨?_, sort_succeeds hf hgood⟩
  rintro ⟨sorted, h⟩ a ha b hb
  obtain ⟨hperm, hpairs⟩ := sort_eq_ok hf hgood h
  have hsymm : Std.Symm fun x y => good x → good y → Compares lt x y :=
    { symm := fun _ _ hxy hy hx => hf.symm hx hy (hxy hx hy) }
  have hanswers : sorted.Pairwise fun x y => good x → good y → Compares lt x y :=
    hpairs.imp fun hupto _ _ => hupto.2
  have hall := hanswers.forall_of_forall fun _ _ hx _ => hf.refl hx
  exact hall (hperm.mem_iff.2 ha) (hperm.mem_iff.2 hb) (hgood a ha) (hgood b hb)

end AltrStream.Foundations
