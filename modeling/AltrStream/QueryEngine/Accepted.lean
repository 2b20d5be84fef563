import AltrStream.Foundations.Emission
import AltrStream.QueryEngine.Parser
import AltrStream.QueryEngine.Validator

/-! # Accepted queries

`semantic/normalizer.py` and `parse_altrql`, the gate that every query passes.
The results say what the rest of the engine may rely on: the parser builds no
bare constraint, and every leaf of an accepted query is well formed.
-/
namespace AltrStream.QueryEngine
open Foundations Python

def normalizeExpression : Expression → Expression
  | .atom expr => .atom ⟨expr.field, expr.operator, expr.operand⟩
  | .not operand => .not (normalizeExpression operand)
  | .and left right => .and (normalizeExpression left) (normalizeExpression right)
  | .or left right => .or (normalizeExpression left) (normalizeExpression right)

def normalizeIr (ir : AltrQueryIR) : AltrQueryIR where
  operation := ir.operation
  entity := ir.entity
  projection := ir.projection
  where_ := ir.where_.map normalizeExpression
  assignments := ir.assignments
  records :=
    if ir.records ≠ [] then ir.records.map fun record => ⟨record.assignments⟩
    else if ir.operation = .create ∧ ir.assignments ≠ [] then [⟨ir.assignments⟩]
    else []
  sort := ir.sort
  ranking := ir.ranking
  limit := ir.limit
  offset := ir.offset

@[simp] theorem normalizeExpression_eq (expr : Expression) : normalizeExpression expr = expr := by
  induction expr with
  | atom e => rfl
  | and l r hl hr => simp [normalizeExpression, hl, hr]
  | or l r hl hr => simp [normalizeExpression, hl, hr]
  | not e ih => simp [normalizeExpression, ih]

@[simp] theorem normalizeIr_where (ir : AltrQueryIR) : (normalizeIr ir).where_ = ir.where_ := by
  cases h : ir.where_ <;> simp [normalizeIr, h]

/-- Only the assignments of a CREATE without records are rewritten: as its one record. -/
theorem normalizeIr_cases (ir : AltrQueryIR) : normalizeIr ir = ir ∨
    (ir.operation = .create ∧ ir.records = [] ∧ ir.assignments ≠ [] ∧
      normalizeIr ir = { ir with records := [⟨ir.assignments⟩] }) := by
  have hwhere := normalizeIr_where ir
  obtain ⟨operation, entity, projection, where_, assignments, records, sort, ranking, limit, offset⟩ := ir
  unfold normalizeIr at hwhere ⊢
  dsimp only at hwhere ⊢
  rw [hwhere]
  by_cases hrecords : records = []
  · by_cases hcreate : operation = .create ∧ assignments ≠ []
    · exact .inr ⟨hcreate.1, hrecords, hcreate.2, by rw [if_neg (not_not.2 hrecords), if_pos hcreate]⟩
    · exact .inl (by rw [if_neg (not_not.2 hrecords), if_neg hcreate, hrecords])
  · exact .inl (by rw [if_pos hrecords, List.map_id'])

/-! ### The parser's operands -/

section
variable (u : Unicode)

theorem parseError_returns {α : Type} {message : String} {expected : Option (List String)}
    {post : α → Prop} : Returns (parseError u message expected) post :=
  Returns.after fun _ => Returns.throw

/-- Every leaf has an operand that the grammar allows. -/
def LeavesParsed (expr : Expression) : Prop := ∀ e ∈ expr.atoms, e.operand.Parsed e.operator

theorem parseStringOrValueSet_parsed {operator : Operator} (h : operator.takesSet = true) :
    Returns (parseStringOrValueSet u) (Operand.Parsed operator) := by
  unfold parseStringOrValueSet
  refine Returns.after fun b => Returns.ite (fun _ => ?_) fun _ => ?_
  · exact Returns.after fun _ => Returns.pure h
  · exact Returns.after fun _ => Returns.pure trivial

theorem parseOperatorAndOperand_parsed :
    Returns (parseOperatorAndOperand u) fun r => r.2.Parsed r.1 := by
  unfold parseOperatorAndOperand
  dsimp only
  refine Returns.after fun _ => Returns.ite (fun _ => ?_) fun _ => ?_
  · exact Returns.after fun _ => Returns.pure trivial
  refine Returns.after fun _ => Returns.ite (fun _ => ?_) fun _ => ?_
  · exact Returns.after fun _ => Returns.pure trivial
  refine Returns.after fun _ => Returns.ite (fun _ => ?_) fun _ => ?_
  · exact Returns.bind (parseStringOrValueSet_parsed u rfl) fun _ h => Returns.pure h
  refine Returns.after fun _ => Returns.ite (fun _ => ?_) fun _ => ?_
  · refine Returns.after fun _ => ?_
    exact Returns.bind (parseStringOrValueSet_parsed u rfl) fun _ h => Returns.pure h
  refine Returns.after fun op => ?_
  cases op with
  | none => exact parseError_returns u
  | some op =>
    refine Returns.after fun _ => Returns.ite (fun _ => ?valueSet) fun _ => ?single
    case valueSet =>
      refine Returns.ite (fun _ => ?_) fun hop => ?_
      · refine Returns.bind (?_ : Returns _ fun _ => False) fun _ h => h.elim
        exact parseError_returns u
      · refine Returns.after fun _ => Returns.pure ?_
        simpa [Operand.Parsed, Operator.takesSet] using hop
    case single =>
      refine Returns.after fun r => ?_
      cases r with
      | inl l => exact Returns.pure trivial
      | inr r => exact Returns.pure trivial

theorem parseAtomicFieldExpression_parsed :
    Returns (parseAtomicFieldExpression u) LeavesParsed := by
  refine Returns.after fun field => ?_
  refine Returns.bind (parseOperatorAndOperand_parsed u) fun r h => Returns.pure ?_
  simpa [LeavesParsed, Formula.atoms] using h

theorem LeavesParsed.and {l r : Expression} (hl : LeavesParsed l) (hr : LeavesParsed r) :
    LeavesParsed (.and l r) := by
  intro e he
  rcases List.mem_append.1 he with h | h
  · exact hl e h
  · exact hr e h

theorem LeavesParsed.or {l r : Expression} (hl : LeavesParsed l) (hr : LeavesParsed r) :
    LeavesParsed (.or l r) := LeavesParsed.and (l := l) (r := r) hl hr

section
variable {parseNot : ParseM Expression} (hNot : Returns parseNot LeavesParsed)
include hNot

theorem andLoop_parsed (fuel : ℕ) {expr : Expression} (h : LeavesParsed expr) :
    Returns (andLoop u parseNot fuel expr) LeavesParsed := by
  induction fuel generalizing expr with
  | zero => exact Returns.pure h
  | succ fuel ih =>
    unfold andLoop
    dsimp only
    refine Returns.after fun _ => Returns.ite (fun _ => ?keyword) fun _ => ?_
    case keyword =>
      exact Returns.after fun _ => Returns.bind hNot fun _ hr => ih (h.and hr)
    refine Returns.after fun _ => Returns.ite (fun _ => ?comma) fun _ => Returns.pure h
    case comma =>
      refine Returns.after fun _ => Returns.ite (fun _ => ?_) fun _ => ?_
      · exact Returns.after fun _ => Returns.after fun _ => Returns.bind hNot fun _ hr =>
          ih (h.and hr)
      · exact Returns.after fun _ => Returns.bind hNot fun _ hr => ih (h.and hr)

theorem parseAnd_parsed : Returns (parseAnd u parseNot) LeavesParsed :=
  Returns.bind hNot fun _ h => Returns.after fun _ => andLoop_parsed u hNot _ h

theorem orLoop_parsed (fuel : ℕ) {expr : Expression} (h : LeavesParsed expr) :
    Returns (orLoop u parseNot fuel expr) LeavesParsed := by
  induction fuel generalizing expr with
  | zero => exact Returns.pure h
  | succ fuel ih =>
    unfold orLoop
    refine Returns.after fun _ => Returns.ite (fun _ => ?_) fun _ => Returns.pure h
    exact Returns.after fun _ => Returns.bind (parseAnd_parsed u hNot) fun _ hr => ih (h.or hr)

theorem parseOr_parsed : Returns (parseOr u parseNot) LeavesParsed :=
  Returns.bind (parseAnd_parsed u hNot) fun _ h => Returns.after fun _ => orLoop_parsed u hNot _ h

theorem parsePrimary_parsed : Returns (parsePrimary u parseNot) LeavesParsed := by
  unfold parsePrimary
  dsimp only
  refine Returns.after fun _ => Returns.ite (fun _ => ?group) fun _ => ?leaf
  case group =>
    refine Returns.after fun _ => Returns.ite (fun _ => ?_) fun _ => ?_
    · exact Returns.after fun _ => Returns.bind hNot fun _ h => Returns.after fun _ => Returns.pure h
    · exact Returns.bind hNot fun _ h => Returns.after fun _ => Returns.pure h
  case leaf =>
    refine Returns.after fun _ => Returns.ite (fun _ => ?_) fun _ => ?_
    · exact parseAtomicFieldExpression_parsed u
    · exact parseError_returns u

end

theorem parseNot_parsed (fuel : ℕ) : Returns (parseNot u fuel) LeavesParsed := by
  induction fuel with
  | zero => exact parseError_returns u
  | succ fuel ih =>
    unfold parseNot
    refine Returns.after fun _ => Returns.ite (fun _ => ?_) fun _ => ?_
    · exact Returns.after fun _ => Returns.bind ih fun _ h => Returns.pure h
    · exact parsePrimary_parsed u (parseOr_parsed u ih)

theorem parseOrExpression_parsed : Returns (parseOrExpression u) LeavesParsed :=
  Returns.after fun _ => parseOr_parsed u (parseNot_parsed u _)

theorem whereLoop_parsed (fuel : ℕ) :
    Returns (whereLoop u fuel) fun exprs => ∀ e ∈ exprs, LeavesParsed e := by
  induction fuel with
  | zero => exact Returns.pure (by simp)
  | succ fuel ih =>
    have more {expr : Expression} (h : LeavesParsed expr) :
        Returns (do return expr :: (← whereLoop u fuel)) fun exprs => ∀ e ∈ exprs, LeavesParsed e :=
      Returns.bind ih fun _ hs => Returns.pure (List.forall_mem_cons.2 ⟨h, hs⟩)
    have last {expr : Expression} (h : LeavesParsed expr) :
        Returns (pure [expr] : ParseM _) fun exprs => ∀ e ∈ exprs, LeavesParsed e :=
      Returns.pure (by simpa using h)
    unfold whereLoop
    refine Returns.after fun _ => Returns.after fun _ => Returns.ite (fun _ => ?_) fun _ => ?_
    · exact Returns.pure (by simp)
    · refine Returns.bind (parseOrExpression_parsed u) fun expr h => ?_
      refine Returns.after fun _ => Returns.ite (fun _ => ?_) fun _ => ?_
      all_goals exact Returns.after fun _ => Returns.ite (fun _ => last h) fun _ => more h

theorem foldl_and_parsed {first : Expression} {rest : List Expression} (h : LeavesParsed first)
    (hs : ∀ e ∈ rest, LeavesParsed e) : LeavesParsed (rest.foldl .and first) := by
  induction rest generalizing first with
  | nil => exact h
  | cons e rest ih =>
    obtain ⟨he, hrest⟩ := List.forall_mem_cons.1 hs
    exact ih (h.and he) hrest

theorem parseWhereBlock_parsed : Returns (parseWhereBlock u) LeavesParsed := by
  unfold parseWhereBlock
  dsimp only
  refine Returns.after fun _ => Returns.after fun _ =>
    Returns.ite (fun _ => Returns.after fun _ => ?_) fun _ => ?_
  all_goals
    refine Returns.after fun _ => Returns.bind (whereLoop_parsed u _) fun exprs h => ?_
    refine Returns.after fun _ => ?_
    cases exprs with
    | nil => exact parseError_returns u
    | cons first rest =>
      obtain ⟨hfirst, hrest⟩ := List.forall_mem_cons.1 h
      exact Returns.pure (foldl_and_parsed hfirst hrest)

theorem parseOptionalWhere_parsed :
    Returns (parseOptionalWhere u) fun w => ∀ e ∈ w, LeavesParsed e := by
  unfold parseOptionalWhere
  refine Returns.after fun _ => Returns.ite (fun _ => ?_) fun _ => ?_
  · exact Returns.map ((parseWhereBlock_parsed u).mono fun e h => by simpa using h)
  · exact Returns.pure (by simp)

/-- The leaves of the query's WHERE tree have operands that the grammar allows. -/
def AltrQueryIR.Parsed (ir : AltrQueryIR) : Prop := ∀ e ∈ ir.where_, LeavesParsed e

theorem parseGet_parsed : Returns (parseGet u) AltrQueryIR.Parsed := by
  unfold parseGet
  refine Returns.after fun _ => Returns.after fun _ => Returns.ite (fun _ => ?_) fun _ => ?_
  all_goals
    refine Returns.after fun _ => Returns.bind (parseOptionalWhere_parsed u) fun w h => ?_
    refine Returns.after fun _ => Returns.after fun ordering => ?_
    refine Returns.after fun _ => Returns.after fun window => ?_
    exact Returns.after fun _ => Returns.pure h

theorem parseCreate_parsed : Returns (parseCreate u) AltrQueryIR.Parsed := by
  have finish {entity : String} {records : List CreateRecord} :
      Returns (do
        rejectReadClauses u "CREATE"
        consumeTerminatingSemicolon u
        return ({ operation := .create, entity, records } : AltrQueryIR)) AltrQueryIR.Parsed :=
    Returns.after fun _ => Returns.after fun _ => Returns.pure (by simp [AltrQueryIR.Parsed])
  unfold parseCreate
  dsimp only
  refine Returns.after fun _ => Returns.after fun _ => Returns.ite (fun _ => ?_) fun _ => ?_
  · refine Returns.after fun _ => Returns.after fun _ => Returns.after fun _ => ?_
    exact Returns.ite (fun _ => Returns.after fun _ => finish) fun _ => finish
  · refine Returns.after fun _ => Returns.after fun _ => ?_
    exact Returns.ite (fun _ => Returns.after fun _ => finish) fun _ => finish

theorem parseUpdate_parsed : Returns (parseUpdate u) AltrQueryIR.Parsed := by
  have finish {entity : String} {assignments : List MutationAssignment} :
      Returns (do
        let where_ ← parseWhereBlock u
        rejectReadClauses u "UPDATE"
        consumeTerminatingSemicolon u
        return ({ operation := .update, entity, assignments, where_ := some where_ } :
          AltrQueryIR)) AltrQueryIR.Parsed := by
    refine Returns.bind (parseWhereBlock_parsed u) fun e h => ?_
    exact Returns.after fun _ => Returns.after fun _ =>
      Returns.pure (by simpa [AltrQueryIR.Parsed] using h)
  unfold parseUpdate
  dsimp only
  refine Returns.after fun _ => Returns.after fun _ => Returns.ite (fun _ => ?_) fun _ => ?_
  · refine Returns.after fun _ => Returns.after fun _ => Returns.after fun _ => ?_
    exact Returns.ite (fun _ => Returns.after fun _ => finish) fun _ => finish
  · refine Returns.after fun _ => Returns.after fun _ => ?_
    exact Returns.ite (fun _ => Returns.after fun _ => finish) fun _ => finish

theorem parseDelete_parsed : Returns (parseDelete u) AltrQueryIR.Parsed := by
  have finish {entity : String} :
      Returns (do
        let where_ ← parseOptionalWhere u
        rejectReadClauses u "DELETE"
        consumeTerminatingSemicolon u
        return ({ operation := .delete, entity, where_ } : AltrQueryIR)) AltrQueryIR.Parsed :=
    Returns.bind (parseOptionalWhere_parsed u) fun w h =>
      Returns.after fun _ => Returns.after fun _ => Returns.pure h
  unfold parseDelete
  dsimp only
  refine Returns.after fun _ => Returns.after fun _ => ?_
  exact Returns.ite (fun _ => Returns.after fun _ => finish) fun _ => finish

theorem parseQuery_parsed : Returns (parseQuery u) AltrQueryIR.Parsed := by
  unfold parseQuery
  refine Returns.after fun _ => Returns.ite (fun _ => parseGet_parsed u) fun _ => ?_
  refine Returns.after fun _ => Returns.ite (fun _ => parseCreate_parsed u) fun _ => ?_
  refine Returns.after fun _ => Returns.ite (fun _ => parseUpdate_parsed u) fun _ => ?_
  exact Returns.after fun _ =>
    Returns.ite (fun _ => parseDelete_parsed u) fun _ => parseError_returns u

/-! ### Acceptance -/

def parseAltrql (queryText : String) : Except PyError AltrQueryIR := do
  let tokens ← Lexer.tokenize u queryText
  let rawIr ← Parser.parse u tokens
  validateIr rawIr
  let normalizedIr := normalizeIr rawIr
  validateIr normalizedIr
  return normalizedIr

theorem Parser.parse_parsed {tokens : List Token} {ir : AltrQueryIR}
    (h : Parser.parse u tokens = .ok ir) : ir.Parsed := by
  obtain ⟨⟨a, p⟩, hrun, rfl⟩ := map_eq_ok.1 h
  exact parseQuery_parsed u _ a p hrun

/-- An accepted query is a validated one, with operands that the grammar allows. -/
theorem parseAltrql_eq_ok {queryText : String} {ir : AltrQueryIR}
    (h : parseAltrql u queryText = .ok ir) : validateIr ir = .ok () ∧ ir.Parsed := by
  simp only [parseAltrql, bind_eq_ok, pure_eq_ok] at h
  obtain ⟨tokens, -, raw, hraw, _, -, _, hvalid, rfl⟩ := h
  refine ⟨hvalid, ?_⟩
  unfold AltrQueryIR.Parsed
  rw [normalizeIr_where]
  exact Parser.parse_parsed u hraw

end

theorem validateWhere_of_validateIr {ir : AltrQueryIR} {x : Unit} (h : validateIr ir = .ok x)
    (hop : ir.operation ≠ .create) : validateWhere ir = .ok () := by
  unfold validateIr at h
  cases hop' : ir.operation with
  | create => exact absurd hop' hop
  | read =>
    simp only [hop', bind_eq_ok] at h
    obtain ⟨-, -, -, -, -, -, -, -, -, -, -, -, h⟩ := h
    exact h
  | update =>
    simp only [hop', bind_eq_ok] at h
    obtain ⟨-, -, -, -, -, -, -, -, -, -, h⟩ := h
    exact h
  | delete =>
    simp only [hop', bind_eq_ok] at h
    obtain ⟨-, -, -, -, h⟩ := h
    exact h

theorem where_eq_none_of_create {ir : AltrQueryIR} {x : Unit} (h : validateIr ir = .ok x)
    (hop : ir.operation = .create) : ir.where_ = none := by
  simp only [validateIr, hop, validateCreate, disallowReadClauses, bind_eq_ok, raiseIf_eq_ok] at h
  obtain ⟨_, -, _, -, _, -, _, hwhere, -⟩ := h
  simpa using hwhere

/-- Every leaf of an accepted query is validated, with an operand that the grammar allows. -/
theorem parseAltrql_validated {u : Unicode} {queryText : String} {ir : AltrQueryIR}
    (h : parseAltrql u queryText = .ok ir) {expr : Expression} (hexpr : ir.where_ = some expr) :
    ∀ e ∈ expr.atoms, validateFieldExpression e = .ok () ∧ e.operand.Parsed e.operator := by
  obtain ⟨hvalid, hparsed⟩ := parseAltrql_eq_ok u h
  have hop : ir.operation ≠ .create := fun hop => by
    simp [where_eq_none_of_create hvalid hop] at hexpr
  have hwhere := validateWhere_of_validateIr hvalid hop
  simp only [validateWhere, hexpr, validateExpression_eq_ok] at hwhere
  exact fun e he => ⟨hwhere e he, hparsed expr (by simp [hexpr]) e he⟩

/-- Every leaf of an accepted query is well formed, with an operand that the grammar allows. -/
theorem parseAltrql_leaves {u : Unicode} {queryText : String} {ir : AltrQueryIR}
    (h : parseAltrql u queryText = .ok ir) {expr : Expression} (hexpr : ir.where_ = some expr) :
    ∀ e ∈ expr.atoms, e.operand.WellFormed ∧ e.operand.Parsed e.operator := by
  intro e he
  obtain ⟨hvalid, hparsed⟩ := parseAltrql_validated h hexpr e he
  exact ⟨Operand.wellFormed_of_validate hparsed hvalid, hparsed⟩

end AltrStream.QueryEngine
