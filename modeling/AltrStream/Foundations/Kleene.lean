import Mathlib.Data.List.Basic

/-! # Three-valued truth and Boolean formulas

Strong Kleene truth values with finite conjunctions and disjunctions, and
formulas over arbitrary atoms. The main fact is that a Kleene value is exactly
the set of Boolean outcomes left open when every undecided atom occurrence is
read either way, so a formula is certain only if no such reading changes it.
-/
namespace AltrStream.Foundations

inductive Truth where
  | no
  | unknown
  | yes
  deriving DecidableEq, Repr

namespace Truth

def ofBool (b : Bool) : Truth := if b then yes else no

def neg : Truth → Truth
  | no => yes
  | unknown => unknown
  | yes => no

def and : Truth → Truth → Truth
  | no, _ => no
  | _, no => no
  | yes, yes => yes
  | _, _ => unknown

def or : Truth → Truth → Truth
  | yes, _ => yes
  | _, yes => yes
  | no, no => no
  | _, _ => unknown

def conj (l : List Truth) : Truth := l.foldr and yes

def disj (l : List Truth) : Truth := l.foldr or no

@[simp] theorem ofBool_eq_yes (b : Bool) : ofBool b = yes ↔ b = true := by
  cases b <;> simp [ofBool]

@[simp] theorem ofBool_eq_no (b : Bool) : ofBool b = no ↔ b = false := by
  cases b <;> simp [ofBool]

@[simp] theorem ofBool_ne_unknown (b : Bool) : ofBool b ≠ unknown := by
  cases b <;> simp [ofBool]

@[simp] theorem neg_eq_yes (t : Truth) : t.neg = yes ↔ t = no := by cases t <;> simp [neg]

@[simp] theorem neg_eq_unknown (t : Truth) : t.neg = unknown ↔ t = unknown := by
  cases t <;> simp [neg]

@[simp] theorem and_eq_yes (s t : Truth) : s.and t = yes ↔ s = yes ∧ t = yes := by
  cases s <;> cases t <;> simp [and]

@[simp] theorem and_eq_no (s t : Truth) : s.and t = no ↔ s = no ∨ t = no := by
  cases s <;> cases t <;> simp [and]

@[simp] theorem or_eq_yes (s t : Truth) : s.or t = yes ↔ s = yes ∨ t = yes := by
  cases s <;> cases t <;> simp [or]

@[simp] theorem or_eq_no (s t : Truth) : s.or t = no ↔ s = no ∧ t = no := by
  cases s <;> cases t <;> simp [or]

@[simp] theorem and_yes (t : Truth) : t.and yes = t := by cases t <;> rfl

@[simp] theorem or_no (t : Truth) : t.or no = t := by cases t <;> rfl

@[simp] theorem yes_and (t : Truth) : yes.and t = t := by cases t <;> rfl

@[simp] theorem no_or (t : Truth) : no.or t = t := by cases t <;> rfl

@[simp] theorem and_no (t : Truth) : t.and no = no := by cases t <;> rfl

@[simp] theorem or_yes (t : Truth) : t.or yes = yes := by cases t <;> rfl

theorem or_comm (s t : Truth) : s.or t = t.or s := by cases s <;> cases t <;> rfl

theorem and_assoc (r s t : Truth) : (r.and s).and t = r.and (s.and t) := by
  cases r <;> cases s <;> cases t <;> rfl

theorem or_assoc (r s t : Truth) : (r.or s).or t = r.or (s.or t) := by
  cases r <;> cases s <;> cases t <;> rfl

/-- A value is determined by whether it is `yes` and whether it is `no`. -/
theorem ext_iff' {s t : Truth} (hyes : s = yes ↔ t = yes) (hno : s = no ↔ t = no) : s = t := by
  cases s <;> cases t <;> simp_all

theorem conj_eq_yes {l : List Truth} : conj l = yes ↔ ∀ t ∈ l, t = yes := by
  induction l with
  | nil => simp [conj]
  | cons t l ih =>
    change and t (conj l) = yes ↔ _
    simp [ih]

theorem conj_eq_no {l : List Truth} : conj l = no ↔ ∃ t ∈ l, t = no := by
  induction l with
  | nil => simp [conj]
  | cons t l ih =>
    change and t (conj l) = no ↔ _
    simp only [and_eq_no, ih, List.mem_cons, exists_eq_or_imp]

theorem disj_eq_yes {l : List Truth} : disj l = yes ↔ ∃ t ∈ l, t = yes := by
  induction l with
  | nil => simp [disj]
  | cons t l ih =>
    change or t (disj l) = yes ↔ _
    simp only [or_eq_yes, ih, List.mem_cons, exists_eq_or_imp]

theorem disj_eq_no {l : List Truth} : disj l = no ↔ ∀ t ∈ l, t = no := by
  induction l with
  | nil => simp [disj]
  | cons t l ih =>
    change or t (disj l) = no ↔ _
    simp [ih]

theorem disj_append (l l' : List Truth) : disj (l ++ l') = (disj l).or (disj l') := by
  apply ext_iff'
  · simp only [or_eq_yes, disj_eq_yes, List.mem_append, or_and_right, exists_or]
  · simp only [or_eq_no, disj_eq_no, List.mem_append, or_imp, forall_and]

theorem conj_append (l l' : List Truth) : conj (l ++ l') = (conj l).and (conj l') := by
  apply ext_iff'
  · simp only [and_eq_yes, conj_eq_yes, List.mem_append, or_imp, forall_and]
  · simp only [and_eq_no, conj_eq_no, List.mem_append, or_and_right, exists_or]

/-- Only the members of a disjunction matter, not their order or multiplicity. -/
theorem disj_congr {l l' : List Truth} (h : ∀ t, t ∈ l ↔ t ∈ l') : disj l = disj l' := by
  apply ext_iff'
  · simp only [disj_eq_yes, h]
  · simp only [disj_eq_no, h]

theorem conj_congr {l l' : List Truth} (h : ∀ t, t ∈ l ↔ t ∈ l') : conj l = conj l' := by
  apply ext_iff'
  · simp only [conj_eq_yes, h]
  · simp only [conj_eq_no, h]

/-- The members that satisfy `p`, all of one value, may be collected behind the others. -/
theorem disj_partition {α : Type*} (p : α → Bool) (f : α → Truth) (t : Truth) (l : List α)
    (h : ∀ a ∈ l, p a = true → f a = t) :
    disj (l.map f) = (disj ((l.filter fun a => !p a).map f)).or (if l.any p then t else no) := by
  apply ext_iff'
  · simp only [or_eq_yes, disj_eq_yes, List.mem_map, List.mem_filter, exists_exists_and_eq_and]
    constructor
    · rintro ⟨a, ha, hfa⟩
      by_cases hp : p a = true
      · have hany : l.any p = true := List.any_eq_true.mpr ⟨a, ha, hp⟩
        exact .inr (by rw [if_pos hany, ← h a ha hp, hfa])
      · exact .inl ⟨a, ⟨ha, by simpa using hp⟩, hfa⟩
    · rintro (⟨a, ⟨ha, -⟩, hfa⟩ | ht)
      · exact ⟨a, ha, hfa⟩
      · split_ifs at ht with hany
        obtain ⟨a, ha, hp⟩ := List.any_eq_true.mp hany
        exact ⟨a, ha, (h a ha hp).trans ht⟩
  · simp only [or_eq_no, disj_eq_no, List.mem_map, List.mem_filter]
    constructor
    · intro hall
      refine ⟨?_, ?_⟩
      · rintro _ ⟨a, ⟨ha, -⟩, rfl⟩
        exact hall _ ⟨a, ha, rfl⟩
      · split_ifs with hany
        · obtain ⟨a, ha, hp⟩ := List.any_eq_true.mp hany
          exact hall _ ⟨a, ha, h a ha hp⟩
        · rfl
    · rintro ⟨hrest, ht⟩ _ ⟨a, ha, rfl⟩
      by_cases hp : p a = true
      · have hany : l.any p = true := List.any_eq_true.mpr ⟨a, ha, hp⟩
        rw [h a ha hp]
        rwa [if_pos hany] at ht
      · exact hrest _ ⟨a, ⟨ha, by simpa using hp⟩, rfl⟩

theorem disj_filter {α : Type*} (p : α → Bool) (f : α → Truth) (l : List α) :
    disj (l.map f) = (disj ((l.filter p).map f)).or (disj ((l.filter fun a => !p a).map f)) := by
  rw [← disj_append, ← List.map_append]
  refine disj_congr fun t => ?_
  simp only [List.mem_map, List.mem_append, List.mem_filter, Bool.not_eq_true']
  refine exists_congr fun a => and_congr_left fun _ => ?_
  cases p a <;> simp

@[simp] theorem neg_neg (t : Truth) : t.neg.neg = t := by cases t <;> rfl

theorem neg_or (s t : Truth) : (s.or t).neg = s.neg.and t.neg := by
  cases s <;> cases t <;> rfl

theorem neg_and (s t : Truth) : (s.and t).neg = s.neg.or t.neg := by
  cases s <;> cases t <;> rfl

theorem neg_disj (l : List Truth) : (disj l).neg = conj (l.map neg) := by
  induction l with
  | nil => rfl
  | cons t l ih =>
    change (or t (disj l)).neg = and t.neg (conj (l.map neg))
    rw [neg_or, ih]

theorem neg_conj (l : List Truth) : (conj l).neg = disj (l.map neg) := by
  induction l with
  | nil => rfl
  | cons t l ih =>
    change (and t (conj l)).neg = or t.neg (disj (l.map neg))
    rw [neg_and, ih]

theorem conj_map_neg {α : Type*} (f : α → Truth) (l : List α) :
    conj (l.map fun a => (f a).neg) = (disj (l.map f)).neg := by
  rw [neg_disj, List.map_map]
  rfl

theorem conj_partition {α : Type*} (p : α → Bool) (f : α → Truth) (t : Truth) (l : List α)
    (h : ∀ a ∈ l, p a = true → f a = t) :
    conj (l.map f) = (conj ((l.filter fun a => !p a).map f)).and (if l.any p then t else yes) := by
  have hdual := disj_partition p (fun a => (f a).neg) t.neg l fun a ha hp => by rw [h a ha hp]
  have hneg : ∀ l' : List α, disj (l'.map fun a => (f a).neg) = (conj (l'.map f)).neg := by
    intro l'
    rw [neg_conj, List.map_map]
    rfl
  rw [hneg, hneg] at hdual
  rw [← neg_neg (conj (l.map f)), hdual, neg_or, neg_neg]
  split_ifs
  · rw [neg_neg]
  · rfl

/-- A common alternative may be moved out of every conjunct. -/
theorem conj_or (l : List Truth) (t : Truth) : (conj l).or t = conj (l.map fun s => s.or t) := by
  apply ext_iff'
  · simp only [or_eq_yes, conj_eq_yes, List.mem_map]
    constructor
    · rintro h _ ⟨s, hs, rfl⟩
      exact (or_eq_yes s t).mpr (h.imp_left (fun h => h s hs))
    · intro h
      by_cases ht : t = yes
      · exact .inr ht
      · refine .inl fun s hs => ?_
        exact ((or_eq_yes s t).mp (h _ ⟨s, hs, rfl⟩)).resolve_right ht
  · simp only [or_eq_no, conj_eq_no, List.mem_map]
    constructor
    · rintro ⟨⟨s, hs, rfl⟩, rfl⟩
      exact ⟨_, ⟨_, hs, rfl⟩, rfl⟩
    · rintro ⟨_, ⟨s, hs, rfl⟩, h⟩
      have h' := (or_eq_no s t).mp h
      exact ⟨⟨s, hs, h'.1⟩, h'.2⟩

/-- The Boolean readings a truth value leaves open. -/
def Admits : Truth → Bool → Prop
  | no, b => b = false
  | unknown, _ => True
  | yes, b => b = true

theorem admits_and {s t : Truth} {b : Bool} :
    (s.and t).Admits b ↔ ∃ x y, s.Admits x ∧ t.Admits y ∧ b = (x && y) := by
  cases s <;> cases t <;> cases b <;> simp [and, Admits]

theorem admits_or {s t : Truth} {b : Bool} :
    (s.or t).Admits b ↔ ∃ x y, s.Admits x ∧ t.Admits y ∧ b = (x || y) := by
  cases s <;> cases t <;> cases b <;> simp [or, Admits]

theorem admits_neg {t : Truth} {b : Bool} : t.neg.Admits b ↔ t.Admits (!b) := by
  cases t <;> cases b <;> simp [neg, Admits]

theorem eq_yes_iff_admits {t : Truth} : t = yes ↔ ∀ b, t.Admits b → b = true := by
  cases t <;> simp [Admits]

end Truth

/-- Boolean formulas over atoms of any type. -/
inductive Formula (α : Type*) where
  | atom (a : α)
  | and (left right : Formula α)
  | or (left right : Formula α)
  | not (operand : Formula α)
  deriving DecidableEq, Repr

namespace Formula

variable {α β : Type*}

def atoms : Formula α → List α
  | atom a => [a]
  | and l r => l.atoms ++ r.atoms
  | or l r => l.atoms ++ r.atoms
  | not t => t.atoms

def map (f : α → β) : Formula α → Formula β
  | atom a => atom (f a)
  | and l r => and (l.map f) (r.map f)
  | or l r => or (l.map f) (r.map f)
  | not t => not (t.map f)

/-- Run a computation on every atom, from left to right. -/
def mapM {m : Type → Type} [Monad m] {α β : Type} (f : α → m β) : Formula α → m (Formula β)
  | atom a => do return atom (← f a)
  | and l r => do return and (← l.mapM f) (← r.mapM f)
  | or l r => do return or (← l.mapM f) (← r.mapM f)
  | not t => do return not (← t.mapM f)

def eval (f : α → Bool) : Formula α → Bool
  | atom a => f a
  | and l r => l.eval f && r.eval f
  | or l r => l.eval f || r.eval f
  | not t => !t.eval f

theorem eval_congr {f g : α → Bool} {t : Formula α} (h : ∀ a ∈ t.atoms, f a = g a) :
    t.eval f = t.eval g := by
  induction t with
  | atom a => exact h a (List.mem_singleton_self a)
  | not e ih => rw [eval, eval, ih h]
  | and l r ihl ihr | or l r ihl ihr =>
    obtain ⟨hl, hr⟩ := List.forall_mem_append.1 h
    rw [eval, eval, ihl hl, ihr hr]

def evalTruth (f : α → Truth) : Formula α → Truth
  | atom a => f a
  | and l r => (l.evalTruth f).and (r.evalTruth f)
  | or l r => (l.evalTruth f).or (r.evalTruth f)
  | not t => (t.evalTruth f).neg

@[simp] theorem atoms_map (f : α → β) (t : Formula α) : (t.map f).atoms = t.atoms.map f := by
  induction t with
  | atom a => rfl
  | and l r ihl ihr => simp [map, atoms, ihl, ihr]
  | or l r ihl ihr => simp [map, atoms, ihl, ihr]
  | not t ih => simpa [map, atoms] using ih

theorem map_congr {f g : α → β} {t : Formula α} (h : ∀ a ∈ t.atoms, f a = g a) :
    t.map f = t.map g := by
  induction t with
  | atom a => exact congrArg atom (h a (List.mem_singleton_self a))
  | and l r ihl ihr | or l r ihl ihr =>
    rw [map, map, ihl fun a ha => h a (List.mem_append_left _ ha),
      ihr fun a ha => h a (List.mem_append_right _ ha)]
  | not t ih => exact congrArg not (ih h)

/-- The values a formula can take when every occurrence of an undecided atom
is read either way, independently of the other occurrences. -/
def Outcome (f : α → Truth) : Formula α → Bool → Prop
  | atom a, b => (f a).Admits b
  | and l r, b => ∃ x y, l.Outcome f x ∧ r.Outcome f y ∧ b = (x && y)
  | or l r, b => ∃ x y, l.Outcome f x ∧ r.Outcome f y ∧ b = (x || y)
  | not t, b => t.Outcome f (!b)

/-- Kleene evaluation computes exactly the open outcomes. -/
theorem outcome_iff (f : α → Truth) (t : Formula α) (b : Bool) :
    t.Outcome f b ↔ (t.evalTruth f).Admits b := by
  induction t generalizing b with
  | atom a => rfl
  | and l r ihl ihr => simp only [Outcome, evalTruth, ihl, ihr, Truth.admits_and]
  | or l r ihl ihr => simp only [Outcome, evalTruth, ihl, ihr, Truth.admits_or]
  | not t ih => simp only [Outcome, evalTruth, ih, Truth.admits_neg]

theorem evalTruth_eq_yes_iff (f : α → Truth) (t : Formula α) :
    t.evalTruth f = .yes ↔ ∀ b, t.Outcome f b → b = true := by
  simp only [outcome_iff, Truth.eq_yes_iff_admits]

/-- Reading every undecided atom as the two-valued assignment does is one of the outcomes. -/
theorem outcome_eval (f : α → Truth) (τ : α → Bool) (t : Formula α)
    (h : ∀ a ∈ t.atoms, (f a).Admits (τ a)) : t.Outcome f (t.eval τ) := by
  induction t with
  | atom a => exact h a (by simp [atoms])
  | and l r ihl ihr =>
    exact ⟨_, _, ihl fun a ha => h a (by simp [atoms, ha]),
      ihr fun a ha => h a (by simp [atoms, ha]), rfl⟩
  | or l r ihl ihr =>
    exact ⟨_, _, ihl fun a ha => h a (by simp [atoms, ha]),
      ihr fun a ha => h a (by simp [atoms, ha]), rfl⟩
  | not t ih => simpa [Outcome, eval] using ih h

/-- If the atoms are right on their own, the three-valued formula is right
exactly when its truth does not hinge on how the undecided atoms are read. -/
theorem evalTruth_agrees_iff (f : α → Truth) (τ : α → Bool) (t : Formula α)
    (h : ∀ a ∈ t.atoms, (f a = .yes ↔ τ a = true)) :
    (t.evalTruth f = .yes ↔ t.eval τ = true) ↔
      (t.eval τ = true → ∀ b, t.Outcome f b → b = true) := by
  have hadmits : ∀ a ∈ t.atoms, (f a).Admits (τ a) := by
    intro a ha
    have haτ := h a ha
    cases hf : f a <;> cases hτ : τ a <;> simp_all [Truth.Admits]
  have houtcome := outcome_eval f τ t hadmits
  rw [evalTruth_eq_yes_iff]
  constructor
  · intro hiff htrue
    exact hiff.mpr htrue
  · intro hdecisive
    exact ⟨fun hall => hall _ houtcome, hdecisive⟩

/-- The reading that takes every atom for what it certainly is. -/
def certain (f : α → Truth) (a : α) : Bool := f a = .yes

/-- However the atoms are meant, the three-valued formula comes out as meant exactly if two
questions have the same answer: whether reading the atoms as certain changes the outcome, and
whether a true outcome hinges on how the undecided atoms are read. -/
theorem evalTruth_means_iff (f : α → Truth) (τ : α → Bool) (t : Formula α) :
    (t.evalTruth f = .yes ↔ t.eval τ = true) ↔
      (t.eval τ = t.eval (certain f) ↔
        (t.eval (certain f) = true → ∀ b, t.Outcome f b → b = true)) := by
  rw [← evalTruth_agrees_iff f (certain f) t fun a _ => by simp [certain], Bool.eq_iff_iff]
  grind

end Formula

end AltrStream.Foundations
