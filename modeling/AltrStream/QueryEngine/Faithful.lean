import AltrStream.QueryEngine.Accepted
import AltrStream.QueryEngine.Reparsing
import AltrStream.QueryEngine.StatementSound

/-! # Faithful parsing

An accepted query is one that the grammar can spell, so its print is parsed back.
The tokens of the text are those of the print unless an ordering clause was
replaced: a second SORT, TOP or BOTTOM overwrites the first, where a second LIMIT
or OFFSET is rejected.
-/
namespace AltrStream.QueryEngine
open Foundations Python

/-! ### Accepted queries are printable -/

theorem CreateRecord.printable_of_validate {r : CreateRecord} (h : validateRecord r = .ok ()) :
    r.Printable := by
  simp only [validateRecord, bind_eq_ok, raiseIf_eq_ok] at h
  obtain ⟨-, hne, h⟩ := h
  exact ⟨hne, validateMutationAssignments_eq_ok.1 h⟩

theorem ValueSetElement.printable_of_validate {e : ValueSetElement} (h : validateValueSetElement e = .ok ()) :
    e.Printable := by
  cases e with
  | literal l => trivial
  | range r => trivial
  | constraint c => trivial
  | compound cs =>
    rw [validateValueSetElement, raiseIf_eq_ok] at h
    exact Nat.not_lt.1 h

theorem elements_printable_of_validate {es : List ValueSetElement} (h : validateValueSet es = .ok ()) :
    es ≠ [] ∧ ∀ e ∈ es, e.Printable := by
  simp only [validateValueSet, bind_eq_ok, raiseIf_eq_ok, checkAll_eq_ok] at h
  obtain ⟨-, hne, h⟩ := h
  exact ⟨hne, fun e he => ValueSetElement.printable_of_validate (h e he)⟩

theorem Operand.printable_of_validate {e : FieldExpression} (hparsed : e.operand.Parsed e.operator)
    (h : validateFieldExpression e = .ok ()) : e.operand.Printable e.operator := by
  obtain ⟨field, operator, operand⟩ := e
  simp only [validateFieldExpression, bind_eq_ok] at h
  obtain ⟨_, hstring, h⟩ := h
  cases operand with
  | constraint c => exact hparsed.elim
  | compound cs => exact hparsed.elim
  | valueSet es =>
    obtain ⟨hne, hes⟩ := elements_printable_of_validate h
    cases operator with
    | comparison op => exact ⟨by simpa [Operand.Parsed, Operator.takesSet] using hparsed, hne, hes⟩
    | string op =>
      refine ⟨?_, hne, hes⟩
      cases op with
      | starts => cases hparsed
      | ends => cases hparsed
      | has => exact .inl rfl
      | notHas => exact .inr rfl
  | literal l =>
    cases operator with
    | comparison op => trivial
    | string op =>
      cases l with
      | string s => exact ⟨s, rfl⟩
      | integer _ | float _ | boolean _ | null | temporal _ => cases hstring
  | range r =>
    cases operator with
    | comparison op => trivial
    | string op => cases hstring

/-- What the parser reads and the validator passes can be spelled. -/
theorem AltrQueryIR.printable_of_validate {ir : AltrQueryIR} (hstatement : ir.OfStatement)
    (hordering : ir.sort = [] ∨ ir.ranking = none) (hparsed : ir.Parsed) (hvalid : validateIr ir = .ok ()) :
    ir.Printable where
  statement := hstatement
  ordering := hordering
  conditions := by
    intro expr hexpr e he
    have hop : ir.operation ≠ .create := fun hop => by
      rw [where_eq_none_of_create hvalid hop] at hexpr
      cases hexpr
    have hwhere := validateWhere_of_validateIr hvalid hop
    simp only [validateWhere, Option.mem_def.1 hexpr, validateExpression_eq_ok] at hwhere
    exact Operand.printable_of_validate (hparsed expr hexpr e he) (hwhere e he)
  records := by
    intro r hr
    unfold AltrQueryIR.OfStatement at hstatement
    unfold validateIr at hvalid
    cases hoperation : ir.operation with
    | read =>
      rw [hoperation] at hstatement
      rw [hstatement.2] at hr
      cases hr
    | create =>
      have hne : ir.records ≠ [] := fun hnil => by rw [hnil] at hr; cases hr
      simp only [hoperation, validateCreate, validateCreatePayload, if_pos hne, bind_eq_ok,
        checkAll_eq_ok] at hvalid
      obtain ⟨-, -, -, hrecords, -⟩ := hvalid
      exact CreateRecord.printable_of_validate (hrecords r hr)
    | update =>
      rw [hoperation] at hstatement
      rw [hstatement.2.2.1] at hr
      cases hr
    | delete =>
      rw [hoperation] at hstatement
      rw [hstatement.2.2.1] at hr
      cases hr
  create := by
    intro hoperation hnil
    unfold AltrQueryIR.OfStatement at hstatement
    rw [hoperation] at hstatement
    simp only [validateIr, hoperation, validateCreate, bind_eq_ok, raiseIf_eq_ok] at hvalid
    obtain ⟨-, hsome, -⟩ := hvalid
    exact hsome ⟨hnil, hstatement.2.2.1⟩
  update := by
    intro hoperation
    simp only [validateIr, hoperation, bind_eq_ok, raiseIf_eq_ok] at hvalid
    obtain ⟨-, hne, -⟩ := hvalid
    exact hne

theorem normalizeIr_eq {ir : AltrQueryIR} (h : ir.OfStatement) : normalizeIr ir = ir := by
  rcases normalizeIr_cases ir with heq | ⟨hoperation, -, hassignments, -⟩
  · exact heq
  · unfold AltrQueryIR.OfStatement at h
    rw [hoperation] at h
    exact absurd h.2.2.1 hassignments

section
variable (u : Unicode)

/-- An accepted query is what the parser read of the tokens, and can be spelled. -/
theorem parseAltrql_reads {text : String} {tokens : List Token} {ir : AltrQueryIR}
    (htokens : Lexer.tokenize u text = .ok tokens) (h : parseAltrql u text = .ok ir) :
    ir.ReadAs (contentOf tokens) ∧ ir.Printable := by
  simp only [parseAltrql, bind_eq_ok, pure_eq_ok] at h
  obtain ⟨tokens', htokens', raw, hraw, _, -, _, hvalid, rfl⟩ := h
  cases htokens.symm.trans htokens'
  obtain ⟨body, last, rfl, hlast, hbody⟩ := Lexer.tokenize_closed u htokens
  have hread := Parser.parse_reads u hlast hbody
  rw [hraw] at hread
  rw [normalizeIr_eq hread.statement] at hvalid ⊢
  exact ⟨hread, AltrQueryIR.printable_of_validate hread.statement hread.ordering
    (Parser.parse_parsed u hraw) hvalid⟩

/-- The query says what the tokens say: its print is parsed back, and the tokens that carry
meaning are those of the print, with LIMIT and OFFSET in one order or the other. -/
structure AltrQueryIR.Faithful (ir : AltrQueryIR) (tokens : List Token) : Prop where
  reparsed : Parser.parse u (ir.print.map (·.token)) = .ok ir
  complete : contentOf tokens = content ir.print ∨ contentOf tokens = content ir.printOffsetFirst

/-- The parser answers the tokens of every text with a query or its own error, and the query of an
accepted text is faithful just when the text has one SORT, TOP or BOTTOM keyword at most. -/
theorem parseAltrql_faithful_iff (text : String) :
    (∀ tokens, Lexer.tokenize u text = .ok tokens →
      (∃ ir, Parser.parse u tokens = .ok ir) ∨
        ∃ e, Parser.parse u tokens = .error e ∧ e.kind = .parseError) ∧
    ∀ tokens ir, Lexer.tokenize u text = .ok tokens → parseAltrql u text = .ok ir →
      (ir.Faithful u tokens ↔ orderings (tokens.map (·.type)) ≤ 1) := by
  constructor
  · intro tokens htokens
    obtain ⟨body, last, rfl, hlast, hbody⟩ := Lexer.tokenize_closed u htokens
    have hread := Parser.parse_reads u hlast hbody
    cases hparse : Parser.parse u (body ++ [last]) with
    | ok ir => exact .inl ⟨ir, rfl⟩
    | error e =>
      rw [hparse] at hread
      exact .inr ⟨e, rfl, hread⟩
  · intro tokens ir htokens h
    obtain ⟨hread, hprintable⟩ := parseAltrql_reads u htokens h
    have hwhole := hread.whole_iff
    rw [contentOf, orderings_content] at hwhole
    rw [← hwhole]
    constructor
    · rintro ⟨-, hcomplete⟩
      rcases hcomplete with hcomplete | hcomplete
      · exact ⟨_, hcomplete.trans ir.content_print, .inl rfl⟩
      · exact ⟨_, hcomplete.trans ir.content_printOffsetFirst, .inr rfl⟩
    · rintro ⟨window, hcontent, hwindow⟩
      refine ⟨Parser.parse_print u hprintable, ?_⟩
      rcases hwindow with rfl | rfl
      · exact .inl (hcontent.trans ir.content_print.symm)
      · exact .inr (hcontent.trans ir.content_printOffsetFirst.symm)

end

/-- The first of two SORT blocks is lost. -/
theorem not_parseAltrql_faithful_sort : ¬ ∀ tokens ir,
    Lexer.tokenize .ascii "GET users SORT \x7b name ASC \x7d SORT \x7b age DESC \x7d;" = .ok tokens →
    parseAltrql .ascii "GET users SORT \x7b name ASC \x7d SORT \x7b age DESC \x7d;" = .ok ir →
    ir.Faithful .ascii tokens := by
  have hlost : ∀ (tokens : Except PyError (List Token)) (ir : Except PyError AltrQueryIR),
      (match tokens, ir with
        | .ok tokens, .ok ir =>
          decide (contentOf tokens ≠ content ir.print ∧ contentOf tokens ≠ content ir.printOffsetFirst)
        | _, _ => false) = true →
      ¬ ∀ tokens' ir', tokens = .ok tokens' → ir = .ok ir' → ir'.Faithful .ascii tokens' := by
    intro tokens ir hdecide hfaithful
    split at hdecide
    · obtain ⟨hprint, hoffset⟩ := of_decide_eq_true hdecide
      exact (hfaithful _ _ rfl rfl).complete.elim hprint hoffset
    · cases hdecide
  exact hlost _ _ (by decide +kernel)

end AltrStream.QueryEngine
