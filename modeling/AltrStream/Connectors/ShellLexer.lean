import AltrStream.Python.Loads
import AltrStream.Python.Str

/-! # The lexer of MongoDB's shell syntax

`MongoShellLexer` of `mongodb/shell_parser.py`. The position of a token is the number
of characters before it; comments and spaces are skipped in front of every token.
-/
namespace AltrStream.Connectors.Shell
open Python

inductive Number where
  | int (value : ℤ)
  | float (value : JsonFloat)
  deriving DecidableEq

/-- The type of a token, with its value. -/
inductive TokenType where
  | identifier (name : List Char)
  | string (value : CodePoints)
  | number (value : Number)
  | dot
  | lparen
  | rparen
  | lbrace
  | rbrace
  | lbracket
  | rbracket
  | colon
  | comma
  | semicolon
  | eof
  deriving DecidableEq

structure Token where
  type : TokenType
  position : ℕ
  deriving DecidableEq

/-- What ends a parse early: a `QueryExecutionError` with its message. -/
inductive Stop where
  | queryExecution (message : String)
  /-- The bound on the number of calls is reached. -/
  | outOfFuel
  deriving DecidableEq

/-- `Invalid MongoDB shell syntax: ...` -/
def invalidSyntax (message : String) : Stop :=
  .queryExecution s!"Invalid MongoDB shell syntax: {message}"

namespace Lexer

/-- What the text in front of a token is in. -/
inductive Blank where
  | spaces
  | line
  | block

/-- `_skip_whitespace_and_comments` -/
def skipBlank : Blank → List Char → List Char
  | _, [] => []
  | .line, c :: rest => if c = '\r' ∨ c = '\n' then skipBlank .spaces rest else skipBlank .line rest
  | .block, '*' :: '/' :: rest => skipBlank .spaces rest
  | .block, _ :: rest => skipBlank .block rest
  | .spaces, '/' :: '/' :: rest => skipBlank .line rest
  | .spaces, '/' :: '*' :: rest => skipBlank .block rest
  | .spaces, c :: rest => if isspace c then skipBlank .spaces rest else c :: rest

def singleToken? : Char → Option TokenType
  | '.' => some .dot
  | '(' => some .lparen
  | ')' => some .rparen
  | '{' => some .lbrace
  | '}' => some .rbrace
  | '[' => some .lbracket
  | ']' => some .rbracket
  | ':' => some .colon
  | ',' => some .comma
  | ';' => some .semicolon
  | _ => none

/-- The character that an escape other than `\u` stands for. -/
def unescape : Char → Char
  | 'n' => '\n'
  | 't' => '\t'
  | 'r' => '\r'
  | 'b' => '\x08'
  | 'f' => '\x0c'
  | c => c

section
variable (u : Unicode)

/-- The digits of `int(text, 16)`, in which a single underscore may stand between two digits. -/
def hexDigits? : List Char → Option (List ℕ)
  | [] => some []
  | c :: rest => do
    let digit ← (u.decimal? c).or (hexDigit? c)
    match rest with
    | '_' :: next :: rest => return digit :: (← hexDigits? (next :: rest))
    | rest => return digit :: (← hexDigits? rest)

/-- The digits behind a `0x`, after which an underscore may stand. -/
def unmarked : List Char → List Char
  | '0' :: x :: rest =>
    if x = 'x' ∨ x = 'X' then if rest.head? = some '_' then rest.tail else rest else '0' :: x :: rest
  | digits => digits

/-- `int(text, 16)`: spaces around it, a sign and a `0x` are allowed. -/
def intOfHex? (text : List Char) : Option ℤ := do
  let (negative, digits) := unsigned (stripChars text)
  if unmarked digits = [] then none
  let values ← hexDigits? u (unmarked digits)
  let n : ℕ := values.foldl (fun n d => 16 * n + d) 0
  return if negative then -n else n

/-- What `\u` and the four characters after it append: `chr` of the number, if there is one. -/
def decodeUnit (hexCode : List Char) : CodePoints :=
  match intOfHex? u hexCode with
  | some n => if 0 ≤ n ∧ n ≤ 0x10FFFF then [n.toNat] else '\\'.toNat :: 'u'.toNat :: hexCode.map Char.toNat
  | none => '\\'.toNat :: 'u'.toNat :: hexCode.map Char.toNat

/-- The characters of a string up to its closing quote, and the text behind it. -/
def scanChars (quote : Char) : List Char → Option (CodePoints × List Char)
  | [] => none
  | '\\' :: 'u' :: a :: b :: c :: d :: rest => do
    let (chars, stop) ← scanChars quote rest
    return (decodeUnit u [a, b, c, d] ++ chars, stop)
  | '\\' :: esc :: rest => do
    let (chars, stop) ← scanChars quote rest
    return ((unescape esc).toNat :: chars, stop)
  | curr :: rest =>
    if curr = quote then some ([], rest)
    else do
      let (chars, stop) ← scanChars quote rest
      return (curr.toNat :: chars, stop)

/-- The characters that `_read_number` goes on over, given the one before them. -/
def readDigits : Char → List Char → List Char × List Char
  | _, [] => ([], [])
  | previous, c :: rest =>
    if u.isdigit c || c ∈ ['.', 'e', 'E', '+', '-'] then
      if (c = '+' ∨ c = '-') ∧ previous ≠ 'e' ∧ previous ≠ 'E' then ([], c :: rest)
      else
        let (digits, stop) := readDigits c rest
        (c :: digits, stop)
    else ([], c :: rest)

/-- `_read_number` on a text that starts with a digit or a minus. -/
def readNumber (c : Char) (rest : List Char) : List Char × List Char :=
  let (digits, stop) := readDigits u c rest
  (c :: digits, stop)

def numberOf? (text : List Char) : Option Number :=
  if '.' ∈ text ∨ 'e' ∈ text ∨ 'E' ∈ text then (floatOfText? u text).map .float
  else (intOfText? u text).map .int

def isIdentifierChar (c : Char) : Bool := u.isalnum c || c ∈ ['_', '$', '-']

def operators : List Char := ['=', '>', '<', '!', '&', '|', '+', '*', '/', '%', '^', '~', '?']

/-- An operator, which becomes an identifier. -/
def scanOperator (sym : Char) (rest : List Char) : List Char × List Char :=
  if rest.head? = some '>' ∧ sym = '=' then ([sym, '>'], rest.tail)
  else if rest.head? = some '=' ∧ sym ∈ ['=', '!', '<', '>'] then ([sym, '='], rest.tail)
  else ([sym], rest)

/-- One iteration of the loop at the character `ch`, which is neither blank nor starts a comment:
the token and the text behind it. -/
def step (ch : Char) (rest : List Char) (position : ℕ) : Except Stop (TokenType × List Char) :=
  match singleToken? ch with
  | some type => .ok (type, rest)
  | none =>
    if ch = '\'' ∨ ch = '"' then
      match scanChars u ch rest with
      | some (chars, stop) => .ok (.string chars, stop)
      | none => .error <| invalidSyntax
        s!"Unterminated string literal starting at position {position}."
    else if ch = '-' ∨ u.isdigit ch then
      let (text, stop) := readNumber u ch rest
      match numberOf? u text with
      | some value => .ok (.number value, stop)
      | none => .error <| invalidSyntax
        s!"Malformed number '{String.ofList text}' at position {position}."
    else if ch ∈ operators then
      let (sym, stop) := scanOperator ch rest
      .ok (.identifier sym, stop)
    else if u.isalpha ch ∨ ch = '_' ∨ ch = '$' then
      .ok (.identifier ((ch :: rest).takeWhile (isIdentifierChar u)),
        (ch :: rest).dropWhile (isIdentifierChar u))
    else .error <| invalidSyntax
      s!"Unexpected character '{String.ofList [ch]}' at position {position}."

/-- The loop over a text that ends after `length` characters in all; every iteration consumes a
character, so the number of characters bounds the iterations. -/
def scan (length : ℕ) : ℕ → List Char → Except Stop (List Token)
  | 0, _ => .error .outOfFuel
  | fuel + 1, text =>
    match skipBlank .spaces text with
    | [] => .ok [⟨.eof, length⟩]
    | ch :: rest => do
      let position := length - (rest.length + 1)
      let (type, stop) ← step u ch rest position
      return ⟨type, position⟩ :: (← scan length fuel stop)

def tokenize (text : List Char) : Except Stop (List Token) :=
  scan u text.length (text.length + 1) text

end

end Lexer

end AltrStream.Connectors.Shell
