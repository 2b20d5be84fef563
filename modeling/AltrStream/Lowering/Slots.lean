import AltrStream.Foundations.Matching
import AltrStream.Lowering.SqlTruth
import AltrStream.QueryEngine.Validator

/-! # What a leaf leaves in its predicate

A predicate has slots: the NULL tests and the operands that its columns meet. An
operand of a query contributes tests, values and patterns. A predicate provides
for a leaf if all its slots are on the leaf's column and every contribution has a
slot of its own. The results are about the code that the three lowerers share.
-/
namespace AltrStream.Lowering
open Foundations Python QueryEngine Semantics

/-- What a condition looks at in one place. -/
inductive Slot where
  /-- No column at all. -/
  | constant
  | nullTest (column : BoundFieldPath)
  | operand (column : BoundFieldPath) (x : SqlOperand)
  deriving DecidableEq

namespace Slot

def column? : Slot → Option BoundFieldPath
  | constant => none
  | nullTest c | operand c _ => some c

def isOperand : Slot → Bool
  | operand .. => true
  | _ => false

end Slot

/-- The slots of a condition. -/
def Condition.slots : Condition → Multiset Slot
  | constant | blank => {.constant}
  | isNull c | isNotNull c => {.nullTest c}
  | compare c _ x | like c x | notLike c x => {.operand c x}
  | between c lo hi | notBetween c lo hi => {.operand c lo} + {.operand c hi}
  | isIn c xs | notIn c xs => (xs.map fun x => {Slot.operand c x}).sum
  | and l r | or l r => l.slots + r.slots
  | not e | group e => e.slots

/-- What a part of a leaf has to leave in the predicate. -/
inductive Contribution where
  | nullTest
  | value (l : LiteralValue)
  | pattern
  deriving DecidableEq

def Contribution.isValue : Contribution → Bool
  | value _ => true
  | _ => false

end AltrStream.Lowering

namespace AltrStream.QueryEngine
open Lowering

/-- `= NULL` and `!= NULL` are NULL tests. -/
def ComparisonConstraint.contributions (c : ComparisonConstraint) : Multiset Contribution :=
  if c.value = .null ∧ c.operator.isOrdering = false then {.nullTest} else {.value c.value}

def Range.contributions (r : Range) : Multiset Contribution :=
  {.value r.start} + {.value r.stop}

def ValueSetElement.contributions : ValueSetElement → Multiset Contribution
  | literal .null => {.nullTest}
  | literal l => {.value l}
  | range r => r.contributions
  | constraint c => c.contributions
  | compound cs => (cs.map fun c => {Contribution.value c.value}).sum

/-- The contributions of an element that a string operator looks for. -/
def ValueSetElement.textContributions : ValueSetElement → Multiset Contribution
  | range r => r.contributions
  | _ => {.pattern}

/-- A NULL test stands for all NULL elements of a set. -/
def setContributions (each : ValueSetElement → Multiset Contribution)
    (elements : List ValueSetElement) : Multiset Contribution :=
  (if elements.any (·.isNull) then {.nullTest} else 0) +
    ((elements.filter (!·.isNull)).map each).sum

/-- Everything that a leaf has to leave in its predicate. -/
def contributions : Operator → Operand → Multiset Contribution
  | .comparison op, .literal l => (ComparisonConstraint.mk op l).contributions
  | .comparison _, .range r => r.contributions
  | .comparison _, .constraint c => c.contributions
  | .comparison _, .compound cs => (ValueSetElement.compound cs).contributions
  | .comparison _, .valueSet elements => setContributions ValueSetElement.contributions elements
  | .string _, .valueSet elements => setContributions ValueSetElement.textContributions elements
  | .string _, _ => {.pattern}

end AltrStream.QueryEngine

namespace AltrStream.Lowering
open Foundations Python QueryEngine Semantics

section
variable (style : ParameterStyle)

/-- An operand position holds the literal. A date may be bound as the start of its day. -/
def Binds (l : LiteralValue) (full : List Scalar) (x : SqlOperand) : Prop :=
  (l = .null ∧ x = .null) ∨ (∃ k, l = .temporal (.keyword k) ∧ x = .current k) ∨
    ∃ i, x = .param i ∧ (entryAt full i = some (style.convertLiteralToParameter l) ∨
      ∃ d, dateOnly? l = some d ∧ entryAt full i = some (style.dayBound (.ofDate d)))

/-- A slot on the column holds the contribution. -/
def Fills (col : BoundFieldPath) (full : List Scalar) : Contribution → Slot → Prop
  | .nullTest, .nullTest c => c = col
  | .nullTest, .operand c x => c = col ∧ x = .null
  | .value l, .operand c x => c = col ∧ Binds style l full x
  | .pattern, .operand c x => c = col ∧ ∃ i s, x = .param i ∧ entryAt full i = some (.str s)
  | _, _ => False

/-- The slots are on the column alone, and every part has a slot of its own. -/
structure SlotsProvide (col : BoundFieldPath) (parts : Multiset Contribution) (full : List Scalar)
    (slots : Multiset Slot) : Prop where
  own : ∀ s ∈ slots, s.column? = some col
  covered : Covered (Fills style col full) parts slots

/-- A predicate provides for the parts of a leaf on the column. -/
def Provides (col : BoundFieldPath) (parts : Multiset Contribution) (full : List Scalar)
    (c : Condition) : Prop := SlotsProvide style col parts full c.slots

end

/-! ### Slots of joined conditions -/

private theorem slots_foldl {join : Condition → Condition → Condition}
    (hjoin : ∀ l r, (join l r).slots = l.slots + r.slots) (c : Condition) (cs : List Condition) :
    (cs.foldl join c).slots = c.slots + (cs.map Condition.slots).sum := by
  induction cs generalizing c with
  | nil => simp
  | cons c' cs ih => rw [List.foldl_cons, ih, hjoin, List.map_cons, List.sum_cons, add_assoc]

theorem slots_joinAnd {cs : List Condition} (h : cs ≠ []) :
    (Condition.joinAnd cs).slots = (cs.map Condition.slots).sum := by
  cases cs with
  | nil => exact absurd rfl h
  | cons c cs => exact slots_foldl (fun _ _ => rfl) c cs

theorem slots_joinOr {cs : List Condition} (h : cs ≠ []) :
    (Condition.joinOr cs).slots = (cs.map Condition.slots).sum := by
  cases cs with
  | nil => exact absurd rfl h
  | cons c cs => exact slots_foldl (fun _ _ => rfl) c cs

theorem slots_bracketAnd {cs : List Condition} (h : cs ≠ []) :
    (bracketAnd cs).slots = (cs.map Condition.slots).sum := by
  match cs, h with
  | [c], _ => simp [bracketAnd]
  | _ :: _ :: _, h => exact slots_joinAnd h

theorem slots_bracketOr {cs : List Condition} (h : cs ≠ []) :
    (bracketOr cs).slots = (cs.map Condition.slots).sum := by
  match cs, h with
  | [c], _ => simp [bracketOr]
  | _ :: _ :: _, h => exact slots_joinOr h

theorem slots_anyOf {cs : List Condition} (h : cs ≠ []) :
    (anyOf cs).slots = (cs.map Condition.slots).sum := by
  cases cs with
  | nil => exact absurd rfl h
  | cons c cs => exact slots_bracketOr h

theorem slots_allOf {cs : List Condition} (h : cs ≠ []) :
    (allOf cs).slots = (cs.map Condition.slots).sum := by
  cases cs with
  | nil => exact absurd rfl h
  | cons c cs => exact slots_bracketAnd h

namespace SlotsProvide

variable {style : ParameterStyle} {col : BoundFieldPath} {parts parts' : Multiset Contribution}
  {full : List Scalar} {slots slots' : Multiset Slot}

theorem zero : SlotsProvide style col 0 full 0 := ⟨by simp, .zero 0⟩

theorem add (h : SlotsProvide style col parts full slots)
    (h' : SlotsProvide style col parts' full slots') :
    SlotsProvide style col (parts + parts') full (slots + slots') :=
  ⟨fun s hs => (Multiset.mem_add.1 hs).elim (h.own s) (h'.own s), h.covered.add h'.covered⟩

theorem mono (h : SlotsProvide style col parts full slots) (hle : parts' ≤ parts) :
    SlotsProvide style col parts' full slots := ⟨h.own, h.covered.mono_left hle⟩

theorem nullTest : SlotsProvide style col {.nullTest} full {.nullTest col} :=
  ⟨fun _ hs => Multiset.mem_singleton.1 hs ▸ rfl, .single rfl⟩

/-- A slot that nothing asks for. -/
theorem unasked {s : Slot} (hs : s.column? = some col) : SlotsProvide style col 0 full {s} :=
  ⟨fun _ hs' => Multiset.mem_singleton.1 hs' ▸ hs, .zero _⟩

/-- A NULL test may be added for nothing. -/
theorem withNullTest (h : SlotsProvide style col parts full slots) :
    SlotsProvide style col parts full (slots + {.nullTest col}) :=
  add_zero parts ▸ h.add (unasked rfl)

theorem operand {part : Contribution} {x : SqlOperand}
    (h : Fills style col full part (.operand col x)) :
    SlotsProvide style col {part} full {.operand col x} :=
  ⟨fun _ hs => Multiset.mem_singleton.1 hs ▸ rfl, .single h⟩

/-- `value l` is what a slot that holds the literal `l` provides for. -/
theorem value {l : LiteralValue} {x : SqlOperand} (h : Binds style l full x) :
    SlotsProvide style col {.value l} full {.operand col x} := operand ⟨rfl, h⟩

/-- Lists of slots provide member by member. -/
theorem sum {ι κ : Type*} {f : ι → Multiset Contribution} {g : κ → Multiset Slot} {l : List ι}
    {l' : List κ} (h : List.Forall₂ (fun i k => SlotsProvide style col (f i) full (g k)) l l') :
    SlotsProvide style col (l.map f).sum full (l'.map g).sum := by
  induction h with
  | nil => exact zero
  | cons h _ ih =>
    rw [List.map_cons, List.map_cons, List.sum_cons, List.sum_cons]
    exact h.add ih

end SlotsProvide

/-! ### What the shared code provides -/

section
variable (style : ParameterStyle) (col : BoundFieldPath)

theorem binds_addParam (l : LiteralValue) :
    Emits (addParam (style.convertLiteralToParameter l)) (Binds style l) :=
  Emits.bind (Emits.emit _) fun i => Emits.pure fun _ hi => .inr (.inr ⟨i, rfl, .inl hi⟩)

theorem binds_lowerLiteral (l : LiteralValue) : Emits (style.lowerLiteral l) (Binds style l) := by
  cases l with
  | null => exact Emits.pure fun _ => .inl ⟨rfl, rfl⟩
  | temporal t =>
    cases t with
    | keyword k => exact Emits.pure fun _ => .inr (.inl ⟨k, rfl, rfl⟩)
    | value d => exact binds_addParam style _
  | _ => exact binds_addParam style _

theorem provides_lowerCompare (op : ComparisonOperator) (l : LiteralValue) :
    Emits (style.lowerCompare col op l) (Provides style col {.value l}) :=
  Emits.bind (binds_lowerLiteral style l) fun _ => Emits.pure fun _ hx => SlotsProvide.value hx

/-- Two bounds of a range, compared in any way. -/
theorem provides_bounds {m : SqlOperand → SqlOperand → Condition} (r : Range)
    (hm : ∀ lo hi, (m lo hi).slots = {.operand col lo} + {.operand col hi}) :
    Emits (do
      let lo ← style.lowerLiteral r.start
      let hi ← style.lowerLiteral r.stop
      return m lo hi) (Provides style col r.contributions) := by
  refine Emits.bind (binds_lowerLiteral style r.start) fun lo => ?_
  refine Emits.bind (binds_lowerLiteral style r.stop) fun hi => Emits.pure fun _ hhi hlo => ?_
  rw [Provides, hm]
  exact (SlotsProvide.value hlo).add (SlotsProvide.value hhi)

theorem provides_lowerBetween (r : Range) :
    Emits (style.lowerBetween col r) (Provides style col r.contributions) :=
  provides_bounds style col r fun _ _ => rfl

theorem provides_lowerCompares {cs : List ComparisonConstraint} (h : cs ≠ [])
    {op : ComparisonConstraint → ComparisonOperator} {join : List Condition → Condition}
    (hjoin : ∀ preds ≠ [], (join preds).slots = (preds.map Condition.slots).sum) :
    Emits (do return join (← cs.mapM fun c => style.lowerCompare col (op c) c.value))
      (Provides style col (ValueSetElement.compound cs).contributions) := by
  refine Emits.bind (Emits.mapM fun c _ => provides_lowerCompare style col _ c.value) fun preds =>
    Emits.pure fun full hpreds => ?_
  rw [Provides, hjoin preds (ne_nil_of_forall₂ hpreds h)]
  exact SlotsProvide.sum hpreds

theorem provides_lowerCompound {cs : List ComparisonConstraint} (h : cs ≠ []) :
    Emits (style.lowerCompound col cs)
      (Provides style col (ValueSetElement.compound cs).contributions) :=
  provides_lowerCompares style col h fun _ => slots_joinAnd

/-- The first bound of a day holds its date. -/
theorem binds_lowerDayBounds {l : LiteralValue} {d : Date} (hd : dateOnly? l = some d) :
    Emits (style.lowerDayBounds d) fun full p => Binds style l full p.1 := by
  unfold ParameterStyle.lowerDayBounds parseDateOnlyRange
  cases (DateTime.ofDate d).addDay? with
  | none => exact Emits.throw (e := dateOverflow)
  | some next =>
    simp only [pure_bind]
    refine Emits.bind (Emits.bind (Emits.emit _) fun i => Emits.pure fun full hi => ?_) fun p₁ =>
      Emits.bind (?_ : Emits _ fun _ _ => True) fun p₂ => Emits.pure fun full _ hp₁ => hp₁
    · exact .inr (.inr ⟨i, rfl, .inr ⟨d, hd, hi⟩⟩)
    · exact (Emits.bind (Emits.emit _) fun _ => Emits.pure fun _ _ => trivial)

theorem provides_lowerDayBounds {m : SqlOperand → SqlOperand → Condition} {l : LiteralValue}
    {d : Date} (hd : dateOnly? l = some d)
    (hm : ∀ p q, (m p q).slots = {.operand col p} + {.operand col q}) :
    Emits (do
      let (p₁, p₂) ← style.lowerDayBounds d
      return m p₁ p₂) (Provides style col {.value l}) := by
  refine Emits.bind (binds_lowerDayBounds style hd) fun p => Emits.pure fun full hp => ?_
  rw [Provides, hm, ← add_zero {Contribution.value l}]
  exact (SlotsProvide.value hp).add (SlotsProvide.unasked rfl)

theorem provides_lowerDay {l : LiteralValue} {d : Date} (hd : dateOnly? l = some d) :
    Emits (style.lowerDay col d) (Provides style col {.value l}) :=
  provides_lowerDayBounds (m := fun p₁ p₂ => .group (.and (.compare col .gte p₁) (.compare col .lt p₂)))
    style col hd fun _ _ => rfl

theorem provides_lowerEquals (l : LiteralValue) :
    Emits (style.lowerEquals col l) (Provides style col {.value l}) := by
  unfold ParameterStyle.lowerEquals
  split
  · rename_i d hd
    split
    · exact provides_lowerDay style col hd
    · exact provides_lowerCompare style col .eq l
  · exact provides_lowerCompare style col .eq l

/-- A constraint against NULL is a NULL test, or a comparison with NULL. -/
theorem provides_lowerNullTest (op : ComparisonOperator) (full : List Scalar) :
    Provides style col (ComparisonConstraint.mk op .null).contributions full
      (lowerNullTest col op) := by
  cases op with
  | eq | neq => exact SlotsProvide.nullTest
  | _ => exact SlotsProvide.value (.inl ⟨rfl, rfl⟩)

/-! ### String operators -/

theorem fills_addPattern (pattern : List Char) :
    Emits (ParameterStyle.addPattern pattern) fun full x =>
      Fills style col full .pattern (.operand col x) :=
  Emits.bind (Emits.emit _) fun i => Emits.pure fun _ hi => ⟨rfl, i, _, rfl, hi⟩

theorem provides_pattern {m : SqlOperand → Condition} (pattern : List Char)
    (hm : ∀ x, (m x).slots = {.operand col x}) :
    Emits (do return m (← ParameterStyle.addPattern pattern)) (Provides style col {.pattern}) :=
  Emits.bind (fills_addPattern style col pattern) fun x => Emits.pure fun _ hx => by
    rw [Provides, hm]
    exact SlotsProvide.operand hx

theorem provides_lowerHasElement (e : ValueSetElement) :
    Emits (style.lowerHasElement col e) (Provides style col e.textContributions) := by
  cases e with
  | range r => exact provides_lowerBetween style col r
  | _ => exact provides_pattern style col _ fun _ => rfl

theorem provides_lowerNotHasElement (e : ValueSetElement) :
    Emits (style.lowerNotHasElement col e) (Provides style col e.textContributions) := by
  cases e with
  | range r => exact provides_bounds style col r fun _ _ => rfl
  | _ => exact provides_pattern style col _ fun _ => rfl

/-! ### Sets -/

variable {style col}

/-- A NULL test beside the predicates of the other elements provides for a set. -/
theorem provides_set {each : ValueSetElement → Multiset Contribution} {full : List Scalar}
    {elements : List ValueSetElement} {slots : Multiset Slot}
    (h : SlotsProvide style col ((elements.filter (!·.isNull)).map each).sum full slots) :
    SlotsProvide style col (setContributions each elements) full
      ((if elements.any (·.isNull) then {.nullTest col} else 0) + slots) := by
  refine SlotsProvide.add ?_ h
  split
  · exact SlotsProvide.nullTest
  · exact SlotsProvide.zero

/-- Without a NULL among the elements there are others. -/
theorem nonNull_ne_nil {elements : List ValueSetElement} (h : elements ≠ [])
    (hany : ¬ elements.any (·.isNull) = true) : elements.filter (!·.isNull) ≠ [] :=
  mt (any_isNull_of_filter_eq_nil h) hany

theorem provides_lowerHasSet {elements : List ValueSetElement} (h : elements ≠ []) :
    Emits (style.lowerHasSet col elements)
      (Provides style col (setContributions ValueSetElement.textContributions elements)) := by
  refine Emits.bind (Emits.mapM fun e _ => provides_lowerHasElement style col e) fun likes =>
    Emits.pure fun full hlikes => ?_
  have hset := provides_set (SlotsProvide.sum hlikes)
  split_ifs at hset ⊢ with hany
  · rw [Provides, slots_anyOf (by simp)]
    exact hset
  · have hne := ne_nil_of_forall₂ hlikes (nonNull_ne_nil h hany)
    rw [Provides, List.nil_append, slots_anyOf hne]
    simpa using hset

theorem provides_lowerNotHasSet {elements : List ValueSetElement} (h : elements ≠ []) :
    Emits (style.lowerNotHasSet col elements)
      (Provides style col (setContributions ValueSetElement.textContributions elements)) := by
  refine Emits.bind (Emits.mapM fun e _ => provides_lowerNotHasElement style col e) fun notLikes => ?_
  by_cases hany : elements.any (·.isNull) = true
  · rw [if_pos hany]
    refine Emits.ite (fun hnil => ?_) fun hne => ?_
    all_goals
      refine Emits.pure fun full hlikes => ?_
      have hset := provides_set (SlotsProvide.sum hlikes)
      rw [if_pos hany] at hset
    · rw [List.isEmpty_iff.1 hnil, List.map_nil, List.sum_nil, add_zero] at hset
      exact hset
    · rw [Provides, Condition.slots, Condition.slots, slots_bracketAnd (mt List.isEmpty_iff.2 hne),
        Condition.slots, add_comm]
      exact hset
  · rw [if_neg hany]
    refine Emits.ite (fun hnil => ?_) fun hne => ?_
    all_goals
      refine Emits.pure fun full hlikes => ?_
      have hset := provides_set (SlotsProvide.sum hlikes)
      rw [if_neg hany, zero_add] at hset
    · exact absurd (List.isEmpty_iff.1 hnil) (ne_nil_of_forall₂ hlikes (nonNull_ne_nil h hany))
    · rw [Provides, Condition.slots, Condition.slots, slots_bracketAnd (mt List.isEmpty_iff.2 hne),
        Condition.slots]
      exact hset.withNullTest

theorem provides_lowerStringOperator (op : StringOperator) {operand : Operand}
    (h : operand.WellFormed) (hparsed : operand.Parsed (.string op)) :
    Emits (style.lowerStringOperator col op operand)
      (Provides style col (contributions (.string op) operand)) := by
  have hpattern : ∀ pattern, Emits (do return Condition.like col (← ParameterStyle.addPattern pattern))
      (Provides style col {.pattern}) := fun pattern => provides_pattern style col pattern fun _ => rfl
  have hnot : ∀ pattern, Emits (do
      let p ← ParameterStyle.addPattern pattern
      return Condition.group (.or (.notLike col p) (.isNull col)))
      (Provides style col {.pattern}) := fun pattern =>
    Emits.bind (fills_addPattern style col pattern) fun _ => Emits.pure fun _ hx =>
      (SlotsProvide.operand hx).withNullTest
  cases operand with
  | valueSet elements =>
    cases op with
    | has => exact provides_lowerHasSet h.1
    | notHas => exact provides_lowerNotHasSet h.1
    | starts | ends => cases hparsed
  | _ =>
    cases op with
    | notHas => exact hnot _
    | _ => exact hpattern _

end

end AltrStream.Lowering
