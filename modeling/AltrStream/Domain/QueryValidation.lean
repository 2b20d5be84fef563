import AltrStream.Domain.Errors
import AltrStream.Python.Str

/-! # Validation of native SQL queries

`domain/query_validation.py`: a query is split at the semicolons outside quotes
and comments, and only a text with a single statement passes.
-/
namespace AltrStream.Domain
open Python

/-- `re.sub(r"/\*[\s\S]*?\*/", " ", sql)`; the first argument counts the characters
that still belong to the last match. -/
def stripBlockComments : ℕ → List Char → List Char
  | _, [] => []
  | skip + 1, _ :: rest => stripBlockComments skip rest
  | 0, c :: rest =>
    match c, rest with
    | '/', '*' :: body =>
      match (List.range body.length).find? fun i => ['*', '/'] <+: body.drop i with
      | some i => ' ' :: stripBlockComments (i + 3) rest
      | none => c :: stripBlockComments 0 rest
    | _, _ => c :: stripBlockComments 0 rest

/-- `re.sub(r"--[^\n]*", " ", sql)`; the flag tells that a comment is being read. -/
def stripLineComments : Bool → List Char → List Char
  | _, [] => []
  | true, c :: rest => if c = '\n' then c :: stripLineComments false rest else stripLineComments true rest
  | false, c :: rest =>
    if c = '-' ∧ rest.head? = some '-' then ' ' :: stripLineComments true rest
    else c :: stripLineComments false rest

def stripSqlComments (sql : List Char) : List Char :=
  stripChars (stripLineComments false (stripBlockComments 0 sql))

/-- What the scan of a query is in. -/
inductive Quoting where
  | outside
  | singleQuote
  | doubleQuote
  | dollarQuote (tag : List Char)
  | lineComment
  | blockComment
  deriving DecidableEq

/-- `[A-Za-z_]` -/
def isTagStart (c : Char) : Bool := c.isAlpha || c = '_'

/-- `re.match(r"^\$([A-Za-z_][A-Za-z0-9_]*)?\$", sql[i:])`, after the first `$`. -/
def dollarTag? (rest : List Char) : Option (List Char) :=
  let name := rest.takeWhile fun c => isTagStart c || c.isDigit
  if name.head?.all isTagStart ∧ rest[name.length]? = some '$' then some ('$' :: (name ++ ['$']))
  else none

/-- One turn of the loop at `c`, away from a terminating semicolon: how many of the
characters after `c` are read with it, and what the scan is in afterwards. -/
def scanStep (c : Char) (rest : List Char) : Quoting → ℕ × Quoting
  | .lineComment => (0, if c = '\n' then .outside else .lineComment)
  | .blockComment => if c = '*' ∧ rest.head? = some '/' then (1, .outside) else (0, .blockComment)
  | .singleQuote =>
    if c = '\'' then if rest.head? = some '\'' then (1, .singleQuote) else (0, .outside)
    else (0, .singleQuote)
  | .doubleQuote =>
    if c = '"' then if rest.head? = some '"' then (1, .doubleQuote) else (0, .outside)
    else (0, .doubleQuote)
  | .dollarQuote tag =>
    if c = '$' ∧ (c :: rest).take tag.length = tag then (tag.length - 1, .outside)
    else (0, .dollarQuote tag)
  | .outside =>
    if c = '-' ∧ rest.head? = some '-' then (1, .lineComment)
    else if c = '/' ∧ rest.head? = some '*' then (1, .blockComment)
    else if c = '\'' then (0, .singleQuote)
    else if c = '"' then (0, .doubleQuote)
    else if c = '$' then
      match dollarTag? rest with
      | some tag => (tag.length - 1, .dollarQuote tag)
      | none => (0, .outside)
    else (0, .outside)

/-- The texts between the terminating semicolons. `skip` characters still belong to the
last turn, and `current` is what the present piece has so far. -/
def sqlPieces : Quoting → ℕ → List Char → List Char → List (List Char)
  | _, _, current, [] => [current]
  | quoting, skip + 1, current, c :: rest => sqlPieces quoting skip (current ++ [c]) rest
  | quoting, 0, current, c :: rest =>
    if quoting = .outside ∧ c = ';' then current :: sqlPieces .outside 0 [] rest
    else
      let turn := scanStep c rest quoting
      sqlPieces turn.2 turn.1 (current ++ [c]) rest

def splitSqlStatements (sql : List Char) : List (List Char) :=
  (((sqlPieces .outside 0 [] sql).map stripChars).filter (· ≠ [])).filter (stripSqlComments · ≠ [])

def emptyQuery : QueryError := .readOnlyQueryRequired "Query cannot be empty."

def multiStatement : QueryError := .readOnlyQueryRequired
  "Multi-statement queries are forbidden in Query Playground. Please execute one statement at a time."

/-- The only statement of a query. -/
def validateQuery (query : String) : Except QueryError String :=
  let sql := query.toList
  if stripChars sql = [] then .error emptyQuery
  else if stripSqlComments sql = [] then .error emptyQuery
  else
    match splitSqlStatements sql with
    | [] => .error emptyQuery
    | [statement] => .ok (String.ofList (stripChars statement))
    | _ => .error multiStatement

example : validateQuery "DELETE FROM t WHERE a = ';' -- ;\n;" =
    .ok "DELETE FROM t WHERE a = ';' -- ;" := by decide

end AltrStream.Domain
