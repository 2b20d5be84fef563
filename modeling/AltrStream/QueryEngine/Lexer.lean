import AltrStream.Python.Text
import AltrStream.QueryEngine.Errors

/-! # The AltrQL lexer

`parser/lexer.py`. A cursor is the text that is left with the coordinates of
its first character; one iteration of `tokenize` is `Lexer.step`.
-/
namespace AltrStream.QueryEngine
open Python

/-- Token types; a literal's or an identifier's type carries the token's value. -/
inductive TokenType where
  | lparen
  | rparen
  | lbrace
  | rbrace
  | comma
  | semicolon
  | dot
  | colon
  | ampersand
  | dotdot
  | eq
  | neq
  | gt
  | lt
  | gte
  | lte
  | identifier (name : String)
  | string (value : String)
  | integer (value : ℤ)
  | float (value : PyFloat)
  | temporalLiteral (value : Date)
  | get
  | create
  | update
  | delete
  | where_
  | and
  | or
  | sort
  | asc
  | desc
  | top
  | bottom
  | by_
  | limit
  | offset
  | as_
  | not
  | has
  | starts
  | ends
  | true_
  | false_
  | null
  | today
  | now
  | eof
  deriving DecidableEq

def reservedKeywords : List (String × TokenType) :=
  [("GET", .get), ("CREATE", .create), ("UPDATE", .update), ("DELETE", .delete),
   ("WHERE", .where_), ("AND", .and), ("OR", .or), ("SORT", .sort), ("ASC", .asc),
   ("DESC", .desc), ("TOP", .top), ("BOTTOM", .bottom), ("BY", .by_), ("LIMIT", .limit),
   ("OFFSET", .offset), ("AS", .as_), ("NOT", .not), ("HAS", .has), ("STARTS", .starts),
   ("ENDS", .ends), ("TRUE", .true_), ("FALSE", .false_), ("NULL", .null), ("TODAY", .today),
   ("NOW", .now)]

structure Token where
  type : TokenType
  line : ℕ
  column : ℕ
  lexeme : String
  deriving DecidableEq

namespace Lexer

structure Cursor where
  rest : List Char
  line : ℕ := 1
  column : ℕ := 1
  deriving DecidableEq

namespace Cursor

def advance : Cursor → Cursor
  | ⟨[], line, column⟩ => ⟨[], line, column⟩
  | ⟨c :: rest, line, column⟩ => if c = '\n' then ⟨rest, line + 1, 1⟩ else ⟨rest, line, column + 1⟩

/-- Advance over the characters that `keep` accepts, given what follows each of them. -/
def advanceWhile (keep : Char → List Char → Bool) : List Char → Cursor → Cursor
  | [], cursor => cursor
  | c :: rest, cursor => if keep c rest then advanceWhile keep rest cursor.advance else cursor

def skip (keep : Char → List Char → Bool) (cursor : Cursor) : Cursor :=
  advanceWhile keep cursor.rest cursor

/-- The text between two cursors, `source[start:stop]`. -/
def slice (start stop : Cursor) : List Char :=
  start.rest.take (start.rest.length - stop.rest.length)

end Cursor

def lexError (start : Cursor) (message : String) : PyError :=
  { kind := .lexError, message, line := start.line, column := start.column }

def token (start : Cursor) (type : TokenType) (lexeme : List Char) : Token :=
  ⟨type, start.line, start.column, String.ofList lexeme⟩

def singleToken? : Char → Option TokenType
  | '(' => some .lparen
  | ')' => some .rparen
  | '{' => some .lbrace
  | '}' => some .rbrace
  | ',' => some .comma
  | ';' => some .semicolon
  | '.' => some .dot
  | ':' => some .colon
  | '&' => some .ampersand
  | '=' => some .eq
  | '>' => some .gt
  | '<' => some .lt
  | _ => none

def doubleToken? : Char → List Char → Option TokenType
  | '.', '.' :: _ => some .dotdot
  | '!', '=' :: _ => some .neq
  | '>', '=' :: _ => some .gte
  | '<', '=' :: _ => some .lte
  | _, _ => none

section
variable (u : Unicode)

/-- `re.fullmatch(r"\d{4}-\d{2}-\d{2}", raw)` -/
def isDateShape (raw : List Char) : Bool :=
  match raw with
  | [y₁, y₂, y₃, y₄, dash₁, m₁, m₂, dash₂, d₁, d₂] =>
    [y₁, y₂, y₃, y₄, m₁, m₂, d₁, d₂].all u.isDecimal && dash₁ = '-' && dash₂ = '-'
  | _ => false

def temporalDelimiters : List Char :=
  [' ', '\t', '\r', '\n', ',', ';', ')', '}', '(', '{', '&', '=', '!', '<', '>', '/']

def isTemporalChar (c : Char) (rest : List Char) : Bool :=
  c ∉ temporalDelimiters && !(c = '.' && rest.head? = some '.')

def scanTemporalLiteral (start : Cursor) : Except PyError (Token × Cursor) :=
  let first := start.advance
  let stop := first.skip isTemporalChar
  let raw := first.slice stop
  let lexeme := '@' :: raw
  if !isDateShape u raw then
    .error <| lexError start <| s!"Malformed temporal literal '{String.ofList lexeme}'. Expected ISO " ++
      "format '@YYYY-MM-DD'."
  else
    match Date.fromisoformat raw with
    | .ok date => .ok (token start (.temporalLiteral date) lexeme, stop)
    | .error e =>
      .error <| lexError start
        s!"Invalid calendar date in temporal literal '{String.ofList lexeme}': {e}."

def unescape : Char → Char
  | 'n' => '\n'
  | 't' => '\t'
  | 'r' => '\r'
  | c => c

/-- The characters of a string up to its closing quote, and the cursor behind it. -/
def scanChars (start : Cursor) : List Char → Cursor → Except PyError (List Char × Cursor)
  | [], _ => .error (lexError start "Unterminated string literal")
  | '"' :: _, cursor => .ok ([], cursor.advance)
  | '\n' :: _, _ => .error (lexError start "Unterminated string literal (newline in string)")
  | ['\\'], _ => .error (lexError start "Unterminated escape sequence at end of string")
  | '\\' :: escaped :: rest, cursor => do
    let (chars, stop) ← scanChars start rest cursor.advance.advance
    return (unescape escaped :: chars, stop)
  | c :: rest, cursor => do
    let (chars, stop) ← scanChars start rest cursor.advance
    return (c :: chars, stop)

/-- The lexeme is cut by the number of characters read, so it starts late after an escape. -/
def scanString (start : Cursor) : Except PyError (Token × Cursor) := do
  let first := start.advance
  let (chars, stop) ← scanChars start first.rest first
  let raw := start.slice stop
  let lexeme := raw.drop (raw.length - (chars.length + 2))
  return (token start (.string (String.ofList chars)) lexeme, stop)

/-- An exception of `int()` or `float()`, which the lexer does not catch. -/
def converted {α : Type} : Except String α → Except PyError α
  | .ok value => .ok value
  | .error message => .error { kind := .valueError, message }

def skipDigits (cursor : Cursor) : Cursor := cursor.skip fun c _ => u.isdigit c

def scanNumber (start : Cursor) : Except PyError (Token × Cursor) :=
  let stop := skipDigits u start
  let integer := do
    let value ← converted (u.int (start.slice stop))
    return (token start (.integer value) (start.slice stop), stop)
  match stop.rest with
  | '.' :: '.' :: _ => integer
  | '.' :: _ =>
    let fraction := stop.advance
    let stop' := skipDigits u fraction
    if (fraction.slice stop').isEmpty then
      .error (lexError start "Malformed float literal: expected digits after decimal point")
    else do
      let value ← converted (u.float (start.slice stop) (fraction.slice stop'))
      return (token start (.float value) (start.slice stop'), stop')
  | _ => integer

def scanIdentifierOrKeyword (start : Cursor) : Token × Cursor :=
  let stop := start.skip fun c _ => u.isalnum c || c = '_'
  let lexeme := start.slice stop
  match reservedKeywords.lookup (String.ofList lexeme) with
  | some type => (token start type lexeme, stop)
  | none => (token start (.identifier (String.ofList lexeme)) lexeme, stop)

/-- One iteration of the loop on a text that starts with `char`: a token, or nothing for
white space and comments. -/
def step (char : Char) (rest : List Char) (cursor : Cursor) :
    Except PyError (Option Token × Cursor) :=
  if char ∈ [' ', '\t', '\r', '\n'] then .ok (none, cursor.advance)
  else if char = '/' ∧ rest.head? = some '/' then
    .ok (none, cursor.advance.advance.skip fun c _ => c ≠ '\n')
  else
    match doubleToken? char rest, singleToken? char with
    | some type, _ =>
      let stop := cursor.advance.advance
      .ok (some (token cursor type (cursor.slice stop)), stop)
    | none, some type => .ok (some (token cursor type [char]), cursor.advance)
    | none, none =>
      if char = '"' then (scanString cursor).map fun (t, stop) => (some t, stop)
      else if char = '@' then (scanTemporalLiteral u cursor).map fun (t, stop) => (some t, stop)
      else if u.isdigit char then (scanNumber u cursor).map fun (t, stop) => (some t, stop)
      else if u.isalpha char || char = '_' then
        let (t, stop) := scanIdentifierOrKeyword u cursor
        .ok (some t, stop)
      else .error (lexError cursor s!"Unexpected character {u.repr char}")

def eofToken (cursor : Cursor) : Token := ⟨.eof, cursor.line, cursor.column, ""⟩

/-- The loop, with a bound on the number of iterations; every iteration consumes a
character, so the number of characters is enough. -/
def scan : ℕ → Cursor → Except PyError (List Token)
  | 0, cursor => .ok [eofToken cursor]
  | fuel + 1, cursor =>
    match cursor.rest with
    | [] => .ok [eofToken cursor]
    | char :: rest => do
      let (t, stop) ← step u char rest cursor
      let tokens ← scan fuel stop
      return t.toList ++ tokens

def tokenize (source : String) : Except PyError (List Token) :=
  scan u source.length ⟨source.toList, 1, 1⟩

end

end Lexer

end AltrStream.QueryEngine
