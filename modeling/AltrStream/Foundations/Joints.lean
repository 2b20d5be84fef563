import Mathlib.Data.List.Basic

/-! # Two precedences of conjunction

Propositions in a row, each joined to the one before by OR, by a conjunction that
binds tighter than OR, or by one that binds looser. Reading more conjunctions
tightly weakens the whole, and the readings agree exactly if every alternative
of the tight one implies every clause of the loose one.
-/
namespace AltrStream.Foundations

inductive Joint
  | or
  | tight
  | loose
  deriving DecidableEq, Repr

namespace Joint

variable {α : Type*} (p : α → Bool)

/-- The value of a row: `some_` says whether an earlier alternative of the clause holds, `run`
whether the alternative at hand does so far. -/
def holds (some_ run : Bool) : List (Joint × α) → Bool
  | [] => some_ || run
  | (or, a) :: l => holds (some_ || run) (p a) l
  | (tight, a) :: l => holds some_ (run && p a) l
  | (loose, a) :: l => (some_ || run) && holds false (p a) l

/-- The row with every conjunction read as `j`. -/
def rejoin (j : Joint) (l : List (Joint × α)) : List (Joint × α) :=
  l.map fun x => (if x.1 = or then or else j, x.2)

/-- The row cut before every joint that stops a run. -/
def cut (stops : Joint → Bool) (run : List α) : List (Joint × α) → List (List α)
  | [] => [run]
  | (j, a) :: l => if stops j then run :: cut stops [a] l else cut stops (run ++ [a]) l

/-- What stands between two ORs. -/
def alternatives (a : α) (l : List (Joint × α)) : List (List α) := cut (· = or) [a] l

/-- What stands between two conjunctions. -/
def clauses (a : α) (l : List (Joint × α)) : List (List α) := cut (· ≠ or) [a] l

/-- Read loosely, a row implies itself; the loose reading only needs the clause at hand. -/
theorem holds_of_loose {s r s' r' : Bool} {l : List (Joint × α)}
    (hstate : (s || r) = true → (s' || r') = true) (h : holds p s r (rejoin loose l) = true) :
    holds p s' r' l = true := by
  induction l generalizing s r s' r' with
  | nil => exact hstate h
  | cons x l ih =>
    obtain ⟨j, a⟩ := x
    cases j with
    | or =>
      refine ih (fun hs => ?_) h
      rcases Bool.or_eq_true_iff.1 hs with hs | ha
      · rw [hstate hs, Bool.true_or]
      · rw [ha, Bool.or_true]
    | tight =>
      obtain ⟨hclause, hrest⟩ := Bool.and_eq_true_iff.1 h
      refine ih (fun ha => ?_) hrest
      have hstate' := hstate hclause
      rw [Bool.false_or] at ha
      rwa [ha, Bool.and_true]
    | loose =>
      obtain ⟨hclause, hrest⟩ := Bool.and_eq_true_iff.1 h
      exact Bool.and_eq_true_iff.2 ⟨hstate hclause, ih id hrest⟩

/-- Read tightly, a row holds as soon as one alternative does. -/
theorem holds_tight (s r : Bool) (l : List (Joint × α)) :
    holds p s r (rejoin tight l) = (s || holds p false r (rejoin tight l)) := by
  induction l generalizing s r with
  | nil => simp [rejoin, holds]
  | cons x l ih =>
    obtain ⟨j, a⟩ := x
    by_cases hj : j = or
    · simp only [rejoin, List.map_cons, hj, if_true, holds] at ih ⊢
      rw [ih, ih (false || r), Bool.false_or, Bool.or_assoc]
    · simp only [rejoin, List.map_cons, hj, if_false, holds] at ih ⊢
      exact ih s (r && p a)

theorem holds_rejoin_tight {s r : Bool} {l : List (Joint × α)} (h : holds p s r l = true) :
    holds p s r (rejoin tight l) = true := by
  induction l generalizing s r with
  | nil => exact h
  | cons x l ih =>
    obtain ⟨j, a⟩ := x
    cases j with
    | or => exact ih h
    | tight => exact ih h
    | loose =>
      obtain ⟨hstate, hrest⟩ := Bool.and_eq_true_iff.1 h
      have hrest' := ih hrest
      change holds p s (r && p a) (rejoin tight l) = true
      rw [holds_tight]
      rcases Bool.or_eq_true_iff.1 hstate with hs | hr
      · rw [hs, Bool.true_or]
      · rw [hr, Bool.true_and, hrest', Bool.or_true]

/-! ### The two extreme readings -/

theorem holds_tight_cut (run : List α) (l : List (Joint × α)) :
    holds p false (run.all p) (rejoin tight l) = (cut (· = or) run l).any (·.all p) := by
  induction l generalizing run with
  | nil => simp [rejoin, holds, cut]
  | cons x l ih =>
    obtain ⟨j, a⟩ := x
    by_cases hj : j = or
    · have htail := ih [a]
      rw [List.all_cons, List.all_nil, Bool.and_true] at htail
      simp only [cut, hj, decide_true, if_true, List.any_cons, ← htail]
      exact holds_tight p (run.all p) (p a) l
    · have htail := ih (run ++ [a])
      rw [List.all_append, List.all_cons, List.all_nil, Bool.and_true] at htail
      simp only [cut, hj, decide_false, Bool.false_eq_true, if_false, ← htail]
      simp [rejoin, hj, holds]

theorem holds_loose_cut {s r : Bool} (run : List α) (l : List (Joint × α))
    (hstate : (s || r) = run.any p) :
    holds p s r (rejoin loose l) = (cut (· ≠ or) run l).all (·.any p) := by
  induction l generalizing run s r with
  | nil => simp [rejoin, holds, cut, hstate]
  | cons x l ih =>
    obtain ⟨j, a⟩ := x
    by_cases hj : j = or
    · have htail := ih (s := s || r) (r := p a) (run ++ [a]) (by simp [hstate])
      simp only [cut, hj, ne_eq, not_true_eq_false, decide_false, Bool.false_eq_true, if_false]
      rw [← htail]
      simp [rejoin, holds]
    · have htail := ih (s := false) (r := p a) [a] (by simp)
      simp only [cut, hj, ne_eq, not_false_eq_true, decide_true, if_true, List.all_cons]
      rw [← htail, ← hstate]
      simp [rejoin, hj, holds]

theorem rejoin_rejoin {i : Joint} (hi : i ≠ or) (j : Joint) (l : List (Joint × α)) :
    rejoin j (rejoin i l) = rejoin j l := by
  simp only [rejoin, List.map_map]
  refine List.map_congr_left fun x _ => ?_
  by_cases hx : x.1 = or <;> simp [hx, hi]

/-- The extreme readings agree exactly if every alternative implies every clause. -/
theorem holds_loose_eq_tight_iff (a : α) (l : List (Joint × α)) :
    holds p false (p a) (rejoin loose l) = holds p false (p a) (rejoin tight l) ↔
      ∀ r ∈ alternatives a l, ∀ c ∈ clauses a l, r.all p = true → c.any p = true := by
  have htight : holds p false (p a) (rejoin tight l) = (alternatives a l).any (·.all p) := by
    have hcut := holds_tight_cut p [a] l
    rwa [List.all_cons, List.all_nil, Bool.and_true] at hcut
  have hloose : holds p false (p a) (rejoin loose l) = (clauses a l).all (·.any p) :=
    holds_loose_cut p [a] l (by simp)
  constructor
  · intro h r hr c hc hall
    have hany : (clauses a l).all (·.any p) = true := by
      rw [← hloose, h, htight]
      exact List.any_eq_true.2 ⟨r, hr, hall⟩
    exact List.all_eq_true.1 hany c hc
  · intro h
    refine Bool.eq_iff_iff.2 ⟨fun hl => ?_, fun hl => ?_⟩
    · have hrow := holds_rejoin_tight p (holds_of_loose p id hl)
      exact hrow
    · rw [htight] at hl
      obtain ⟨r, hr, hall⟩ := List.any_eq_true.1 hl
      rw [hloose]
      exact List.all_eq_true.2 fun c hc => h r hr c hc hall

/-- If the extreme readings agree, every reading agrees with them. -/
theorem holds_eq_tight {a : α} {l l' : List (Joint × α)} (hrow : rejoin tight l' = rejoin tight l)
    (h : holds p false (p a) (rejoin loose l) = holds p false (p a) (rejoin tight l)) :
    holds p false (p a) l' = holds p false (p a) (rejoin tight l) := by
  have hloose : rejoin loose l' = rejoin loose l := by
    rw [← rejoin_rejoin (i := tight) (by decide) loose l', hrow, rejoin_rejoin (by decide)]
  refine Bool.eq_iff_iff.2 ⟨fun hl => hrow ▸ holds_rejoin_tight p hl, fun hl => ?_⟩
  rw [← h, ← hloose] at hl
  exact holds_of_loose p id hl

end Joint

end AltrStream.Foundations
