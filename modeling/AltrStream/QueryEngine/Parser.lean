import AltrStream.QueryEngine.Ast
import AltrStream.QueryEngine.Lexer

/-! # The AltrQL parser

`parser/parser.py`, a recursive descent over the tokens that are left. The last
token, which the lexer makes the end of input, is never consumed. Every
iteration of a loop consumes a token, so the number of tokens bounds it.
-/
namespace AltrStream.QueryEngine
open Foundations Python

structure Parser where
  tokens : List Token
  last : Token

abbrev ParseM := StateT Parser (Except PyError)

namespace Parser

def ofTokens (tokens : List Token) : Parser :=
  ⟨tokens.dropLast, tokens.getLastD ⟨.eof, 1, 1, ""⟩⟩

def peek (p : Parser) (offset : ℕ) : Token := p.tokens.getD offset p.last

def isAtEnd (p : Parser) : Bool := (p.peek 0).type = .eof

def check (p : Parser) (type : TokenType) : Bool := (p.peek 0).type = type

def checkIdentifier (p : Parser) : Bool :=
  match (p.peek 0).type with
  | .identifier _ => true
  | _ => false

def checkInteger (p : Parser) : Bool :=
  match (p.peek 0).type with
  | .integer _ => true
  | _ => false

def advance (p : Parser) : Parser := if p.isAtEnd then p else { p with tokens := p.tokens.tail }

end Parser

section
variable (u : Unicode)

def isKeyword (s : String) : Bool := (reservedKeywords.lookup s).isSome

/-- The keyword that an identifier would be if it were in capitals. -/
def intendedKeyword? (token : Token) : Option String :=
  match token.type with
  | .identifier _ => if isKeyword (u.upper token.lexeme) then some (u.upper token.lexeme) else none
  | _ => none

def unexpected (token : Token) (message : String) (expected : Option (List String)) : PyError :=
  match intendedKeyword? u token with
  | some keyword =>
    { kind := .parseError,
      message := s!"Unexpected identifier '{token.lexeme}' (keywords must be strictly uppercase: " ++
        s!"'{keyword}')",
      line := token.line, column := token.column, unexpectedToken := token.lexeme,
      expectedTokens := expected }
  | none =>
    { kind := .parseError, message, line := token.line, column := token.column,
      unexpectedToken := if token.type = .eof then "EOF" else token.lexeme,
      expectedTokens := expected }

/-- `_error` at the next token. -/
def parseError {α : Type} (message : String) (expected : Option (List String)) : ParseM α := do
  throw (unexpected u ((← get).peek 0) message expected)

def advance : ParseM Unit := modify Parser.advance

def check (type : TokenType) : ParseM Bool := return (← get).check type

def isAtEnd : ParseM Bool := return (← get).isAtEnd

/-- `_match` of one token type. -/
def accept (type : TokenType) : ParseM Bool := do
  if ← check type then
    advance
    return true
  return false

def consume (type : TokenType) (message : String) (expected : List String) : ParseM Unit := do
  if ← check type then advance else parseError u message expected

/-- Consume an identifier, after the check that reports its absence. -/
def consumeIdentifier (message : String) : ParseM String := do
  match ((← get).peek 0).type with
  | .identifier name =>
    advance
    return name
  | _ => parseError u message (some ["IDENTIFIER"])

def consumeInteger (message : String) : ParseM ℤ := do
  match ((← get).peek 0).type with
  | .integer value =>
    advance
    return value
  | _ => parseError u message (some ["INTEGER"])

def consumeTerminatingSemicolon : ParseM Unit := do
  if !(← accept .semicolon) then parseError u "Expected ';' at end of query." (some [";"])
  if !(← isAtEnd) then parseError u "Unexpected tokens after query terminating ';'." none

/-- The number of tokens that are left. -/
def remaining : ParseM ℕ := return (← get).tokens.length

def parseFieldPath : ParseM FieldPath := do
  let root ← consumeIdentifier u "Expected field name."
  return ⟨root, ← keys (← remaining)⟩
where
  keys : ℕ → ParseM (List String)
    | 0 => return []
    | fuel + 1 => do
      if ← accept .dot then
        let key ← consumeIdentifier u "Expected field segment after '.'."
        return key :: (← keys fuel)
      return []

/-! ### Literals, ranges and value sets -/

def literalOf? : TokenType → Option LiteralValue
  | .string value => some (.string value)
  | .integer value => some (.integer value)
  | .float value => some (.float value)
  | .true_ => some (.boolean true)
  | .false_ => some (.boolean false)
  | .null => some .null
  | .today => some (.temporal (.keyword .today))
  | .now => some (.temporal (.keyword .now))
  | .temporalLiteral value => some (.temporal (.value value))
  | _ => none

def parseLiteral : ParseM LiteralValue := do
  let token := (← get).peek 0
  match literalOf? token.type with
  | some value =>
    advance
    return value
  | none =>
    parseError u (s!"Expected literal value (string, integer, float, TRUE, FALSE, NULL, TODAY, NOW, " ++
      s!"or @YYYY-MM-DD), got '{token.lexeme}'.")
      (some ["STRING", "INTEGER", "FLOAT", "TRUE", "FALSE", "NULL", "TODAY", "NOW",
        "TEMPORAL_LITERAL"])

def parseStringLiteral : ParseM LiteralValue := do
  match ((← get).peek 0).type with
  | .string value =>
    advance
    return .string value
  | _ => parseError u "Expected string literal in quotes." (some ["STRING"])

def comparisonOf? : TokenType → Option ComparisonOperator
  | .eq => some .eq
  | .neq => some .neq
  | .gt => some .gt
  | .lt => some .lt
  | .gte => some .gte
  | .lte => some .lte
  | _ => none

/-- The operator of a comparison token, which is consumed. -/
def acceptComparison : ParseM (Option ComparisonOperator) := do
  match comparisonOf? ((← get).peek 0).type with
  | some op =>
    advance
    return some op
  | none => return none

def parseLiteralOrRange : ParseM (LiteralValue ⊕ Range) := do
  let start ← parseLiteral u
  if ← accept .dotdot then
    let stop ← parseLiteral u
    return .inr ⟨start, stop⟩
  return .inl start

/-- The constraints after `&`. -/
def parseCompoundTail : ℕ → ParseM (List ComparisonConstraint)
  | 0 => return []
  | fuel + 1 => do
    match ← acceptComparison with
    | none =>
      parseError u "Expected comparison constraint after '&'." (some [">", "<", ">=", "<="])
    | some op =>
      let value ← parseLiteral u
      if ← accept .ampersand then return ⟨op, value⟩ :: (← parseCompoundTail fuel)
      return [⟨op, value⟩]

def parseValueSetElement : ParseM ValueSetElement := do
  match ← acceptComparison with
  | some op =>
    let first : ComparisonConstraint := ⟨op, ← parseLiteral u⟩
    if ← accept .ampersand then
      return .compound (first :: (← parseCompoundTail u ((← remaining) + 1)))
    return .constraint first
  | none =>
    match ← parseLiteralOrRange u with
    | .inl value => return .literal value
    | .inr range => return .range range

/-- Elements separated by commas; a trailing comma is allowed. -/
def parseValueSetElements : ℕ → ParseM (List ValueSetElement)
  | 0 => return []
  | fuel + 1 => do
    if (← check .rbrace) || (← isAtEnd) then return []
    let element ← parseValueSetElement u
    if ← accept .comma then
      if ← check .rbrace then return [element]
      return element :: (← parseValueSetElements fuel)
    if ← check .rbrace then return [element]
    parseError u "Expected ',' or '\x7d' in value set." (some [",", "\x7d"])

def parseValueSet : ParseM (List ValueSetElement) := do
  if ← check .rbrace then
    parseError u "Value set '{ }' cannot be empty."
      (some ["value, range, or comparison constraint"])
  let elements ← parseValueSetElements u (← remaining)
  consume u .rbrace "Expected '\x7d' closing value set." ["\x7d"]
  return elements

/-! ### Expressions -/

/-- A string after HAS or NOT HAS, or a value set of them. -/
def parseStringOrValueSet : ParseM Operand := do
  if ← accept .lbrace then return .valueSet (← parseValueSet u)
  return .literal (← parseStringLiteral u)

def parseOperatorAndOperand : ParseM (Operator × Operand) := do
  if ← accept .starts then return (.string .starts, .literal (← parseStringLiteral u))
  if ← accept .ends then return (.string .ends, .literal (← parseStringLiteral u))
  if ← accept .has then return (.string .has, ← parseStringOrValueSet u)
  if ← accept .not then
    consume u .has "Expected 'HAS' after 'NOT'." ["HAS"]
    return (.string .notHas, ← parseStringOrValueSet u)
  match ← acceptComparison with
  | none =>
    parseError u
      "Expected operator (=, !=, >, <, >=, <=, STARTS, ENDS, HAS, NOT HAS) after field."
      (some ["=", "!=", ">", "<", ">=", "<=", "STARTS", "ENDS", "HAS", "NOT HAS"])
  | some op =>
    if ← accept .lbrace then
      if op.isOrdering then
        parseError u (s!"Comparison operator '{op.value}' cannot accept a value set or group " ++
          "'\x7b...\x7d' as right operand.") (some ["LITERAL"])
      return (.comparison op, .valueSet (← parseValueSet u))
    match ← parseLiteralOrRange u with
    | .inl value => return (.comparison op, .literal value)
    | .inr range => return (.comparison op, .range range)

def parseAtomicFieldExpression : ParseM Expression := do
  let field ← parseFieldPath u
  let (operator, operand) ← parseOperatorAndOperand u
  return .atom ⟨field, operator, operand⟩

/-- An operand is missing after AND, OR or NOT. -/
def checkOperandFollows (keyword : String) : ParseM Unit := do
  if (← check .rbrace) || (← isAtEnd) || (← check .semicolon) then
    parseError u s!"Expected expression after '{keyword}'." (some ["expression"])

section
variable (parseNot : ParseM Expression)

def andLoop : ℕ → Expression → ParseM Expression
  | 0, expr => return expr
  | fuel + 1, expr => do
    if ← accept .and then
      checkOperandFollows u "AND"
      andLoop fuel (.and expr (← parseNot))
    else if ← check .comma then
      if ((← get).peek 1).type = .rbrace then
        parseError u "Unexpected trailing comma in WHERE block." none
      advance
      andLoop fuel (.and expr (← parseNot))
    else return expr

def parseAnd : ParseM Expression := do
  let expr ← parseNot
  andLoop u parseNot (← remaining) expr

def orLoop : ℕ → Expression → ParseM Expression
  | 0, expr => return expr
  | fuel + 1, expr => do
    if ← accept .or then
      checkOperandFollows u "OR"
      orLoop fuel (.or expr (← parseAnd u parseNot))
    else return expr

def parseOr : ParseM Expression := do
  let expr ← parseAnd u parseNot
  orLoop u parseNot (← remaining) expr

end

def primaryError {α : Type} : ParseM α :=
  parseError u "Expected field expression, '\x7b', or 'NOT'." (some ["IDENTIFIER", "\x7b", "NOT"])

def parsePrimary (parseInner : ParseM Expression) : ParseM Expression := do
  if ← accept .lbrace then
    if ← check .rbrace then
      parseError u "Condition group '{ }' cannot be empty." (some ["expression"])
    let inner ← parseInner
    consume u .rbrace "Expected '\x7d' closing condition group." ["\x7d"]
    return inner
  if (← get).checkIdentifier then parseAtomicFieldExpression u
  else primaryError u

/-- A NOT or a brace is consumed before the recursive call, so the number of tokens bounds
the depth; with no token left there is no expression. -/
def parseNot : ℕ → ParseM Expression
  | 0 => primaryError u
  | fuel + 1 => do
    if ← accept .not then
      checkOperandFollows u "NOT"
      return .not (← parseNot fuel)
    parsePrimary u (parseOr u (parseNot fuel))

def parseOrExpression : ParseM Expression := do parseOr u (parseNot u (← remaining))

def whereLoop : ℕ → ParseM (List Expression)
  | 0 => return []
  | fuel + 1 => do
    if (← check .rbrace) || (← isAtEnd) then return []
    let expr ← parseOrExpression u
    if ← accept .comma then
      if ← check .rbrace then return [expr]
      return expr :: (← whereLoop fuel)
    if ← check .rbrace then return [expr]
    return expr :: (← whereLoop fuel)

def parseWhereBlock : ParseM Expression := do
  consume u .lbrace "Expected '\x7b' after 'WHERE'." ["\x7b"]
  if ← check .rbrace then parseError u "WHERE block cannot be empty." (some ["expression"])
  let expressions ← whereLoop u (← remaining)
  consume u .rbrace "Expected '\x7d' closing WHERE block." ["\x7d"]
  match expressions with
  | [] => parseError u "WHERE block cannot be empty." (some ["expression"])
  | first :: rest => return rest.foldl .and first

/-! ### Projections, sorting and ranking -/

def selectionLoop : ℕ → ParseM (List FieldSelection)
  | 0 => return []
  | fuel + 1 => do
    let path ← parseFieldPath u
    let alias_ ← if ← accept .as_ then
        some <$> consumeIdentifier u "Expected alias identifier after 'AS'."
      else pure none
    if ← accept .comma then
      if ← check .rparen then parseError u "Unexpected trailing comma in projection list." none
      return ⟨path, alias_⟩ :: (← selectionLoop fuel)
    if ← accept .rparen then return [⟨path, alias_⟩]
    parseError u "Expected ',' or ')' in projection list." (some [",", ")"])

def parseProjectionList : ParseM (List FieldSelection) := do
  if ← accept .rparen then return []
  selectionLoop u ((← remaining) + 1)

def parseSortDirection : ParseM SortDirection := do
  if ← accept .asc then return .asc
  if ← accept .desc then return .desc
  parseError u "Expected 'ASC' or 'DESC' sort direction." (some ["ASC", "DESC"])

def sortLoop : ℕ → ParseM (List SortClause)
  | 0 => return []
  | fuel + 1 => do
    if (← check .rbrace) || (← isAtEnd) then return []
    let field ← parseFieldPath u
    let direction ← parseSortDirection u
    if ← accept .comma then
      if ← check .rbrace then return [⟨field, direction⟩]
      return ⟨field, direction⟩ :: (← sortLoop fuel)
    if ← check .rbrace then return [⟨field, direction⟩]
    if (← get).checkIdentifier then return ⟨field, direction⟩ :: (← sortLoop fuel)
    parseError u "Expected ',' or '\x7d' in SORT block." (some [",", "\x7d"])

def parseSortBlock : ParseM (List SortClause) := do
  consume u .lbrace "Expected '\x7b' after 'SORT'." ["\x7b"]
  if ← check .rbrace then
    parseError u "SORT block cannot be empty." (some ["field sorting clause"])
  let clauses ← sortLoop u (← remaining)
  consume u .rbrace "Expected '\x7d' closing SORT block." ["\x7d"]
  return clauses

def parseRankingClause (direction : RankingDirection) : ParseM RankingClause := do
  let count ← consumeInteger u s!"Expected count integer after '{direction.value}'."
  consume u .by_ s!"Expected 'BY' after count in {direction.value} clause." ["BY"]
  return ⟨direction, count, ← parseFieldPath u⟩

/-! ### Mutation payloads -/

/-- What distinguishes the three assignment lists: the name of the payload in messages,
whether a repeated field is reported, and whether an open parenthesis is. -/
structure PayloadStyle where
  payload : String
  rejectsDuplicates : Bool
  rejectsBatch : Bool

/-- The body shared by `_parse_single_create_record`, `_parse_create_record` and
`_parse_mutation_payload`. -/
def assignmentLoop (style : PayloadStyle) : ℕ → List String → ParseM (List MutationAssignment)
  | 0, _ => return []
  | fuel + 1, seen => do
    if (← check .rparen) || (← isAtEnd) then return []
    if style.rejectsBatch && (← check .lparen) then
      parseError u "Cannot mix single-record and batch-record syntax in CREATE payload." none
    let field ← parseFieldPath u
    if style.rejectsDuplicates && field.fullPath ∈ seen then
      parseError u s!"Duplicate assignment for field '{field.fullPath}' in {style.payload}." none
    consume u .colon s!"Expected ':' after field '{field.fullPath}' in mutation assignment." [":"]
    let value ← parseLiteral u
    if ← accept .comma then
      if ← check .rparen then
        parseError u s!"Unexpected trailing comma in {style.payload}." none
      return ⟨field, value⟩ :: (← assignmentLoop style fuel (field.fullPath :: seen))
    if ← check .rparen then return [⟨field, value⟩]
    parseError u s!"Expected ',' or ')' in {style.payload}." (some [",", ")"])

def parseSingleCreateRecord : ParseM (List CreateRecord) := do
  let assignments ← assignmentLoop u ⟨"mutation payload", true, true⟩ (← remaining) []
  consume u .rparen "Expected ')' closing mutation payload." [")"]
  return [⟨assignments⟩]

def parseCreateRecord : ParseM CreateRecord := do
  consume u .lparen "Expected '(' starting record." ["("]
  if ← check .rparen then
    parseError u "Record in CREATE batch cannot be empty." (some ["field assignment"])
  let assignments ← assignmentLoop u ⟨"record payload", true, false⟩ (← remaining) []
  consume u .rparen "Expected ')' closing record payload." [")"]
  return ⟨assignments⟩

def batchLoop : ℕ → ParseM (List CreateRecord)
  | 0 => return []
  | fuel + 1 => do
    if (← check .rparen) || (← isAtEnd) then return []
    if (← get).checkIdentifier then
      parseError u "Cannot mix single-record and batch-record syntax in CREATE payload." none
    if !(← check .lparen) then
      parseError u "Expected '(' starting record in CREATE batch payload." (some ["("])
    let record ← parseCreateRecord u
    if ← accept .comma then
      if ← check .rparen then
        parseError u "Unexpected trailing comma in CREATE batch payload." none
      return record :: (← batchLoop fuel)
    if ← check .rparen then return [record]
    if ← check .lparen then
      parseError u "Expected ',' between records in CREATE batch payload." (some [","])
    parseError u "Expected ',' or ')' in CREATE batch payload." (some [",", ")"])

def parseBatchCreateRecords : ParseM (List CreateRecord) := do
  let records ← batchLoop u (← remaining)
  consume u .rparen "Expected ')' closing CREATE batch payload." [")"]
  return records

def parseCreatePayload : ParseM (List CreateRecord) := do
  consume u .lparen "Expected '(' starting CREATE payload." ["("]
  if ← check .rparen then
    parseError u "CREATE payload cannot be empty." (some ["record or field assignment"])
  if ← check .lparen then parseBatchCreateRecords u
  else if (← get).checkIdentifier then parseSingleCreateRecord u
  else
    parseError u "Expected '(' starting record block or field name in CREATE payload."
      (some ["(", "IDENTIFIER"])

def parseMutationPayload : ParseM (List MutationAssignment) := do
  consume u .lparen "Expected '(' starting mutation payload." ["("]
  if ← check .rparen then
    parseError u "Mutation payload cannot be empty." (some ["field assignment"])
  let assignments ← assignmentLoop u ⟨"mutation payload", false, false⟩ (← remaining) []
  consume u .rparen "Expected ')' closing mutation payload." [")"]
  return assignments

/-! ### Statements -/

def checkRankingOrSort : ParseM Bool := do
  return (← check .sort) || (← check .top) || (← check .bottom)

/-- The clauses that a mutation may not have. -/
def rejectReadClauses (operation : String) : ParseM Unit := do
  if ← checkRankingOrSort then
    parseError u s!"SORT / ranking clauses are not supported on '{operation}' operations." none
  if ← check .limit then
    parseError u s!"LIMIT clause is not supported on '{operation}' operations." none
  if ← check .offset then
    parseError u s!"OFFSET clause is not supported on '{operation}' operations." none

def combinedError {α : Type} : ParseM α :=
  parseError u "Cannot combine 'SORT' with 'TOP'/'BOTTOM' ranking clause in AltrQL v0.1." none

/-- SORT and ranking clauses; a later one of the same kind replaces an earlier one. -/
def orderingLoop : ℕ → Option (List SortClause) → Option RankingClause →
    ParseM (Option (List SortClause) × Option RankingClause)
  | 0, sort, ranking => return (sort, ranking)
  | fuel + 1, sort, ranking => do
    if ← check .sort then
      if ranking.isSome then combinedError u
      advance
      orderingLoop fuel (some (← parseSortBlock u)) ranking
    else if (← check .top) || (← check .bottom) then
      if sort.isSome then combinedError u
      let direction := if ← check .top then RankingDirection.top else RankingDirection.bottom
      advance
      orderingLoop fuel sort (some (← parseRankingClause u direction))
    else return (sort, ranking)

def windowLoop : ℕ → Option ℤ → Option ℤ → ParseM (Option ℤ × Option ℤ)
  | 0, limit, offset => return (limit, offset)
  | fuel + 1, limit, offset => do
    if ← accept .limit then
      if limit.isSome then parseError u "Duplicate 'LIMIT' clause in query." none
      windowLoop fuel (some (← consumeInteger u "Expected integer value after 'LIMIT'.")) offset
    else if ← accept .offset then
      if offset.isSome then parseError u "Duplicate 'OFFSET' clause in query." none
      windowLoop fuel limit (some (← consumeInteger u "Expected integer value after 'OFFSET'."))
    else return (limit, offset)

def parseOptionalWhere : ParseM (Option Expression) := do
  if ← accept .where_ then some <$> parseWhereBlock u else pure none

def parseGet : ParseM AltrQueryIR := do
  let entity ← consumeIdentifier u "Expected entity name after 'GET'."
  let projection ← if ← accept .lparen then parseProjectionList u else pure []
  let where_ ← parseOptionalWhere u
  let (sort, ranking) ← orderingLoop u (← remaining) none none
  let (limit, offset) ← windowLoop u (← remaining) none none
  consumeTerminatingSemicolon u
  return { operation := .read, entity, projection, where_, sort := sort.getD [], ranking, limit,
           offset }

def parseCreate : ParseM AltrQueryIR := do
  let entity ← consumeIdentifier u "Expected entity name after 'CREATE'."
  if !(← check .lparen) then
    parseError u s!"Expected '(' starting mutation payload after entity '{entity}'." (some ["("])
  let records ← parseCreatePayload u
  if ← check .where_ then
    parseError u "WHERE clause is not supported on 'CREATE' operations." none
  rejectReadClauses u "CREATE"
  consumeTerminatingSemicolon u
  return { operation := .create, entity, records }

def parseUpdate : ParseM AltrQueryIR := do
  let entity ← consumeIdentifier u "Expected entity name after 'UPDATE'."
  if !(← check .lparen) then
    parseError u s!"Expected '(' starting mutation payload after entity '{entity}'." (some ["("])
  let assignments ← parseMutationPayload u
  if !(← accept .where_) then
    parseError u "Expected 'WHERE' clause after mutation payload in 'UPDATE' operations."
      (some ["WHERE"])
  let where_ ← parseWhereBlock u
  rejectReadClauses u "UPDATE"
  consumeTerminatingSemicolon u
  return { operation := .update, entity, assignments, where_ := some where_ }

def parseDelete : ParseM AltrQueryIR := do
  let entity ← consumeIdentifier u "Expected entity name after 'DELETE'."
  if ← check .lparen then
    parseError u "Mutation assignment payloads are not supported on 'DELETE' operations." none
  let where_ ← parseOptionalWhere u
  rejectReadClauses u "DELETE"
  consumeTerminatingSemicolon u
  return { operation := .delete, entity, where_ }

def parseQuery : ParseM AltrQueryIR := do
  if ← accept .get then parseGet u
  else if ← accept .create then parseCreate u
  else if ← accept .update then parseUpdate u
  else if ← accept .delete then parseDelete u
  else
    parseError u "Expected 'GET', 'CREATE', 'UPDATE', or 'DELETE' keyword at beginning of query."
      (some ["GET", "CREATE", "UPDATE", "DELETE"])

/-- `Parser(tokens).parse()` -/
def Parser.parse (tokens : List Token) : Except PyError AltrQueryIR :=
  (parseQuery u).run' (Parser.ofTokens tokens)

end

/-! ## Runs of the parser

What the primitives of the parser do on a token list that is known, and the rule
by which runs compose.
-/

theorem run_bind_ok {α β : Type} {m : ParseM α} {f : α → ParseM β} {p p' : Parser} {a : α}
    (h : m.run p = .ok (a, p')) : (m >>= f).run p = (f a).run p' := by
  rw [StateT.run_bind, h]
  rfl

/-- A run yields the value and the parser, or raises where there is none. -/
def Agrees {α : Type} (r : Except PyError (α × Parser)) : Option (α × Parser) → Prop
  | some x => r = .ok x
  | none => ∃ e, r = .error e

namespace Agrees

variable {α β : Type} {m : ParseM α} {f : α → ParseM β} {p : Parser}

theorem bind {o : Option (α × Parser)} {g : α → Parser → Option (β × Parser)}
    (hm : Agrees (m.run p) o) (hf : ∀ a p', o = some (a, p') → Agrees ((f a).run p') (g a p')) :
    Agrees ((m >>= f).run p) (o.bind fun x => g x.1 x.2) := by
  rw [StateT.run_bind]
  cases o with
  | none =>
    obtain ⟨e, he⟩ := hm
    rw [he]
    exact ⟨e, rfl⟩
  | some x =>
    rw [hm]
    exact hf x.1 x.2 rfl

theorem bind_ok {a : α} {p' : Parser} {o : Option (β × Parser)} (hm : m.run p = .ok (a, p'))
    (hf : Agrees ((f a).run p') o) : Agrees ((m >>= f).run p) o := by
  rwa [run_bind_ok hm]

theorem pure (a : α) : Agrees ((Pure.pure a : ParseM α).run p) (some (a, p)) := rfl

end Agrees

variable {t : Token} {ts : List Token} {last : Token} {type : TokenType}

theorem check_cons : (Parser.mk (t :: ts) last).check type = decide (t.type = type) := rfl

theorem isAtEnd_cons : (Parser.mk (t :: ts) last).isAtEnd = decide (t.type = .eof) := rfl

theorem run_check (p : Parser) : (check type).run p = .ok (p.check type, p) := rfl

theorem run_check_of_ne (h : t.type ≠ type) :
    (check type).run ⟨t :: ts, last⟩ = .ok (false, ⟨t :: ts, last⟩) := by
  rw [run_check, check_cons, decide_eq_false h]

theorem run_check_of_eq (h : t.type = type) :
    (check type).run ⟨t :: ts, last⟩ = .ok (true, ⟨t :: ts, last⟩) := by
  rw [run_check, check_cons, decide_eq_true h]

theorem run_isAtEnd_of_ne (h : t.type ≠ .eof) :
    isAtEnd.run ⟨t :: ts, last⟩ = .ok (false, ⟨t :: ts, last⟩) := by
  change Except.ok ((Parser.mk (t :: ts) last).isAtEnd, _) = _
  rw [isAtEnd_cons, decide_eq_false h]

theorem run_remaining (p : Parser) : remaining.run p = .ok (p.tokens.length, p) := rfl

theorem run_advance (h : t.type ≠ .eof) : advance.run ⟨t :: ts, last⟩ = .ok ((), ⟨ts, last⟩) := by
  change Except.ok ((), Parser.advance _) = _
  rw [Parser.advance, if_neg (by simpa [isAtEnd_cons] using h)]
  rfl

theorem run_accept_of_eq (h : t.type = type) (hne : type ≠ .eof) :
    (accept type).run ⟨t :: ts, last⟩ = .ok (true, ⟨ts, last⟩) := by
  simp only [accept, StateT.run_bind, run_check_of_eq h]
  change (do let r ← advance.run ⟨t :: ts, last⟩; (pure true : ParseM Bool).run r.2) = _
  rw [run_advance (h ▸ hne)]
  rfl

theorem run_accept_of_ne (h : t.type ≠ type) :
    (accept type).run ⟨t :: ts, last⟩ = .ok (false, ⟨t :: ts, last⟩) := by
  simp only [accept, StateT.run_bind, run_check_of_ne h]
  rfl

section
variable (u : Unicode)

theorem run_parseError {α : Type} (message : String) (expected : Option (List String)) (p : Parser) :
    (parseError u message expected : ParseM α).run p =
      .error (unexpected u (p.peek 0) message expected) := rfl

theorem run_consume_of_eq (h : t.type = type) (hne : type ≠ .eof) (message : String)
    (expected : List String) :
    (consume u type message expected).run ⟨t :: ts, last⟩ = .ok ((), ⟨ts, last⟩) := by
  simp only [consume, StateT.run_bind, run_check_of_eq h]
  exact run_advance (h ▸ hne)

theorem run_consume_of_ne (h : t.type ≠ type) (message : String) (expected : List String) :
    ∃ e, (consume u type message expected).run ⟨t :: ts, last⟩ = .error e := by
  simp only [consume, StateT.run_bind, run_check_of_ne h]
  exact ⟨_, rfl⟩

end

end AltrStream.QueryEngine
