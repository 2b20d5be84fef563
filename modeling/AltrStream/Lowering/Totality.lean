import AltrStream.Lowering.MongoMatching
import AltrStream.Lowering.Registry
import AltrStream.Lowering.WhereTree
import AltrStream.QueryEngine.Binder

/-! # Which accepted queries every lowerer lowers

A query that is accepted is lowered by all four lowerers unless it asks for the
day of 9999-12-31 or puts a compound constraint in a set after `=`.
-/
namespace AltrStream.Lowering
open Foundations Python QueryEngine Semantics

/-- The leaf asks no lowerer for the end of 9999-12-31, and has no compound constraint in a set
after `=`. -/
def Lowerable (leaf : BoundFieldExpression) : Prop :=
  match leaf.operator, leaf.operand with
  | .comparison .eq, .literal l => DayFits leaf.field l
  | .comparison .eq, .valueSet elements => ∀ e ∈ elements,
      PostgreSQL.ElementFits leaf.field e ∧ ∀ cs, e ≠ .compound cs
  | .comparison .neq, .valueSet elements => ∀ e ∈ elements, Positional.ExcludedFits leaf.field e
  | _, _ => True

theorem lowerable_iff {leaf : BoundFieldExpression} (h : leaf.operand.Parsed leaf.operator) :
    Lowerable leaf ↔ (∀ src : SqlSource, src.Fits leaf) ∧ LeafFits MongoDB.Fits leaf := by
  have hsources : (∀ src : SqlSource, src.Fits leaf) ↔
      LeafFits PostgreSQL.Fits leaf ∧ LeafFits MySQL.Fits leaf ∧ LeafFits SQLite.Fits leaf :=
    ⟨fun h => ⟨h .postgresql, h .mysql, h .sqlite⟩, fun ⟨hp, hm, hs⟩ src => by
      cases src <;> assumption⟩
  rw [hsources]
  obtain ⟨field, operator, operand⟩ := leaf
  rcases operator with op | op
  · cases operand with
    | literal l =>
      cases op <;> simp [Lowerable, LeafFits, PostgreSQL.Fits, MySQL.Fits, SQLite.Fits,
        MongoDB.Fits, Positional.Fits]
    | valueSet elements =>
      cases op with
      | eq =>
        have helement : ∀ e : ValueSetElement, (PostgreSQL.ElementFits field e ∧
            ∀ cs, e ≠ .compound cs) ↔ PostgreSQL.ElementFits field e ∧
              Positional.ElementFits field True e ∧ Positional.ElementFits field False e := by
          intro e
          cases e <;> simp [PostgreSQL.ElementFits, Positional.ElementFits]
        simp only [Lowerable, LeafFits, PostgreSQL.Fits, MySQL.Fits, SQLite.Fits, MongoDB.Fits,
          Positional.Fits, helement, imp_and, forall_and]
        tauto
      | _ =>
        simp [Lowerable, LeafFits, PostgreSQL.Fits, MySQL.Fits, SQLite.Fits, MongoDB.Fits,
          Positional.Fits]
    | range r =>
      cases op <;> simp [Lowerable, LeafFits, PostgreSQL.Fits, MySQL.Fits, SQLite.Fits,
        MongoDB.Fits, Positional.Fits]
    | constraint c => exact h.elim
    | compound cs => exact h.elim
  · simp [Lowerable, LeafFits]

/-- Every lowerer returns a physical query. -/
def LoweredByAll (clock : Clock) (q : BoundAltrQueryIR) : Prop :=
  (∀ src : SqlSource, ∃ r, src.lowerer.lower q = .ok r) ∧ ∃ r, MongoDB.lower clock q = .ok r

/-- An accepted query is lowered by every lowerer exactly if it is a CREATE or its leaves are. -/
theorem loweredByAll_iff (clock : Clock) {q : BoundAltrQueryIR} (hq : Accepted q) :
    LoweredByAll clock q ↔
      q.operation = .create ∨ ∀ e ∈ q.where_, ∀ leaf ∈ e.atoms, Lowerable leaf := by
  have hmongo := MongoDB.lower_succeeds clock q fun e he leaf hleaf => (hq.leaves he hleaf).1
  have hsql := fun src : SqlSource => lower_succeeds src.leaf_succeeds q
  have hlowerable : ∀ e ∈ q.where_, ∀ leaf ∈ e.atoms, (Lowerable leaf ↔
      (∀ src : SqlSource, src.Fits leaf) ∧ LeafFits MongoDB.Fits leaf) :=
    fun e he leaf hleaf => lowerable_iff (hq.leaves he hleaf).2.1
  unfold LoweredByAll
  simp only [hmongo, hsql]
  by_cases hop : q.operation = .create
  · simp [hop]
  · simp only [hop, false_or]
    constructor
    · rintro ⟨hs, hm⟩ e he leaf hleaf
      exact (hlowerable e he leaf hleaf).2 ⟨fun src => hs src e he leaf hleaf, hm e he leaf hleaf⟩
    · intro h
      exact ⟨fun src e he leaf hleaf => ((hlowerable e he leaf hleaf).1 (h e he leaf hleaf)).1 src,
        fun e he leaf hleaf => ((hlowerable e he leaf hleaf).1 (h e he leaf hleaf)).2⟩

open TestSchema in
/-- Every lowerer lowers `DELETE users WHERE { age = 18..30 };`. -/
theorem loweredByAll_range : LoweredByAll .newYear
    (query .delete (.atom ⟨age, .comparison .eq, .range ⟨.integer 18, .integer 30⟩⟩)) := by
  have haccepted : Accepted (query .delete
      (.atom ⟨age, .comparison .eq, .range ⟨.integer 18, .integer 30⟩⟩)) :=
    ⟨.ascii, "DELETE users WHERE { age = 18..30 };", schema, acceptedFrom_of_run (by decide +kernel)⟩
  refine (loweredByAll_iff .newYear haccepted).2 (.inr fun e he leaf hleaf => ?_)
  cases he
  obtain rfl := List.mem_singleton.1 hleaf
  trivial

open TestSchema in
/-- `DELETE users WHERE { age = { >=18 & <=30 } };` is accepted, and SQLite's lowerer raises. -/
theorem eq_compound_not_lowered :
    let q := query .delete (.atom
      ⟨age, .comparison .eq, .valueSet [.compound [⟨.gte, .integer 18⟩, ⟨.lte, .integer 30⟩]]⟩)
    AcceptedFrom .ascii "DELETE users WHERE { age = { >=18 & <=30 } };" schema q ∧
      ¬ LoweredByAll .newYear q :=
  ⟨acceptedFrom_of_run (by decide +kernel), fun h => by
    obtain ⟨r, hr⟩ := h.1 .sqlite
    cases hr⟩

end AltrStream.Lowering
