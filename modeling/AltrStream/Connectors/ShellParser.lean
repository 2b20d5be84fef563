import AltrStream.Connectors.ShellLexer

/-! # The parser of MongoDB's shell syntax

`MongoShellParser` of `mongodb/shell_parser.py`, a recursive descent over the tokens
that are left. The last token is the end of the text, and no call goes beyond it.
The constructors of BSON values belong to other packages.
-/
namespace AltrStream.Connectors.Shell
open Foundations Python

/-- What the parser takes from elsewhere: Python's tables and texts, and the classes of BSON. The
latter raise an exception with a text or build an object. -/
structure Env (β : Type) where
  unicode : Unicode
  /-- `str(value)` in a message. -/
  str : PyValue β → String
  /-- `repr(value)` in a message. -/
  repr : PyValue β → String
  /-- `type(value).__name__` -/
  className : β → String
  objectId : CodePoints → Except String β
  /-- `datetime.fromisoformat`, in UTC if the text says no offset. -/
  fromisoformat : CodePoints → Except String β
  uuid : CodePoints → Except String β
  /-- `Decimal128(str(value))` -/
  decimal128 : PyValue β → Except String β
  /-- `Timestamp(int(t), int(i))` -/
  timestamp : PyValue β → PyValue β → Except String β

/-- `str(number)` -/
def numberText : Number → String
  | .int n => toString n
  | .float (.finite negative q) => (if negative then "-" else "") ++ PyFloat.str (q : ℚ)
  | .float (.infinite negative) => if negative then "-inf" else "inf"
  | .float .nan => "nan"

/-- The type of a token as a message shows it. -/
def TokenType.name : TokenType → String
  | identifier _ => "IDENTIFIER"
  | string _ => "STRING"
  | number _ => "NUMBER"
  | dot => "DOT"
  | lparen => "LPAREN"
  | rparen => "RPAREN"
  | lbrace => "LBRACE"
  | rbrace => "RBRACE"
  | lbracket => "LBRACKET"
  | rbracket => "RBRACKET"
  | colon => "COLON"
  | comma => "COMMA"
  | semicolon => "SEMICOLON"
  | eof => "EOF"

/-- The next token; the end of the text is the last one. -/
def current (tokens : List Token) : Token := tokens.headD ⟨.eof, 0⟩

/-- The parameters of a command. -/
abbrev Spec (β : Type) := Dict CodePoints (PyValue β)

inductive Operation where
  | find
  | insertMany
  | updateMany
  | deleteMany
  deriving DecidableEq

def Operation.name : Operation → String
  | find => "find"
  | insertMany => "insert_many"
  | updateMany => "update_many"
  | deleteMany => "delete_many"

/-- `op_map` -/
def operationOf? (key : String) : Option Operation :=
  [("find", .find), ("insertmany", .insertMany), ("insert_many", .insertMany),
    ("updatemany", .updateMany), ("update_many", .updateMany), ("deletemany", .deleteMany),
    ("delete_many", Operation.deleteMany)].lookup key

def Number.toValue {β : Type} : Number → PyValue β
  | int n => .int n
  | float x => .float x

/-- The words that stand for a value. -/
def keyword? {β : Type} (name : List Char) : Option (PyValue β) :=
  if name ∈ [['t', 'r', 'u', 'e'], ['T', 'r', 'u', 'e']] then some (.bool true)
  else if name ∈ [['f', 'a', 'l', 's', 'e'], ['F', 'a', 'l', 's', 'e']] then some (.bool false)
  else if name ∈ [['n', 'u', 'l', 'l'], ['N', 'o', 'n', 'e']] then some .none
  else none

/-- `bool(value)`; objects of BSON's classes are true. -/
def truthy {β : Type} : PyValue β → Bool
  | .none => false
  | .bool b => b
  | .int n => n ≠ 0
  | .float (.finite _ q) => q ≠ 0
  | .float _ => true
  | .str s => s ≠ []
  | .list items => !items.isEmpty
  | .dict entries => !entries.isEmpty
  | .object _ => true

namespace Parser

variable {β : Type} (env : Env β)

/-- The value of a token as a message shows it. -/
def shown : TokenType → String
  | .identifier name => String.ofList name
  | .string s => env.str (.str s)
  | .number n => numberText n
  | .dot => "."
  | .lparen => "("
  | .rparen => ")"
  | .lbrace => "\x7b"
  | .rbrace => "\x7d"
  | .lbracket => "["
  | .rbracket => "]"
  | .colon => ":"
  | .comma => ","
  | .semicolon => ";"
  | .eof => ""

def typeName : PyValue β → String
  | .none => "NoneType"
  | .bool _ => "bool"
  | .int _ => "int"
  | .float _ => "float"
  | .str _ => "str"
  | .list _ => "list"
  | .dict _ => "dict"
  | .object value => env.className value

/-- `_expect` of a token without a value. -/
def expect (type : TokenType) (message : String) : List Token → Except Stop (List Token)
  | token :: rest => if token.type = type then .ok rest else .error (invalidSyntax message)
  | [] => .error (invalidSyntax message)

def expectIdentifier (message : String) : List Token → Except Stop (List Char × List Token)
  | ⟨.identifier name, _⟩ :: rest => .ok (name, rest)
  | _ => .error (invalidSyntax message)

/-- The name of a property: an identifier, a string or a number. -/
def propertyName? : TokenType → Option CodePoints
  | .identifier name => some (name.map Char.toNat)
  | .string s => some s
  | .number n => some (codePoints (numberText n))
  | _ => none

/-- The constructors of BSON values. -/
inductive Constructor where
  | objectId
  | date
  | uuid
  | decimal128
  | timestamp
  deriving DecidableEq

def constructorOf? (key : String) : Option Constructor :=
  [("objectid", .objectId), ("isodate", .date), ("date", .date), ("uuid", .uuid),
    ("decimal128", .decimal128), ("timestamp", Constructor.timestamp)].lookup key

/-- `arg.replace("Z", "+00:00")` for a text that ends with Z. -/
def isoText (arg : CodePoints) : CodePoints :=
  if arg.getLast? = some 'Z'.toNat then
    arg.flatMap fun c => if c = 'Z'.toNat then codePoints "+00:00" else [c]
  else arg

/-- The message of an argument of a wrong type. -/
def wrongType (expects : String) (arg : PyValue β) : Stop :=
  .queryExecution s!"{expects}, found {typeName env arg}."

/-- An object that a constructor builds, or its exception with what it is about. -/
def built (context : String) : Except String β → Except Stop (PyValue β)
  | .ok value => .ok (.object value)
  | .error e => .error (.queryExecution s!"{context}: {e}")

/-- What a constructor makes of its argument. -/
def construct (kind : Constructor) (name : List Char) (arg : PyValue β) :
    Except Stop (PyValue β) :=
  let written := env.str arg
  match kind, arg with
  | .objectId, .str s => built s!"Invalid ObjectId string '{written}'" (env.objectId s)
  | .objectId, _ => .error (wrongType env "ObjectId() expects a 24-character hexadecimal string" arg)
  | .date, .str s => built s!"Invalid ISO date string '{written}'" (env.fromisoformat (isoText s))
  | .date, _ =>
    .error (wrongType env s!"{String.ofList name}() expects an ISO datetime string" arg)
  | .uuid, .str s => built s!"Invalid UUID string '{written}'" (env.uuid s)
  | .uuid, _ => .error (wrongType env "UUID() expects a valid UUID string" arg)
  | .decimal128, .str _ | .decimal128, .int _ | .decimal128, .float _ | .decimal128, .bool _ =>
    built s!"Invalid Decimal128 value '{written}'" (env.decimal128 arg)
  | .decimal128, _ => .error (wrongType env "Decimal128() expects a string or number" arg)
  | .timestamp, _ => built s!"Invalid Timestamp({written}, 1)" (env.timestamp arg (.int 1))

/-- `Timestamp(t, i)` -/
def constructTimestamp (t i : PyValue β) : Except Stop (PyValue β) :=
  built s!"Invalid Timestamp({env.str t}, {env.str i})" (env.timestamp t i)

/-- What the parser says when it closes the call of a constructor. -/
def closing (kind : Constructor) (name : List Char) : String :=
  match kind with
  | .objectId | .date => s!"Expected ')' closing {String.ofList name}()."
  | .uuid => "Expected ')' closing UUID()."
  | .decimal128 => "Expected ')' closing Decimal128()."
  | .timestamp => "Expected ')' closing Timestamp()."

/-- What is said of a token that has no place in an object or array. -/
def misplaced (expected : String) (token : Token) : Stop :=
  invalidSyntax s!"{expected}, found '{shown env token.type}' at position {token.position}."

mutual

/-- `_parse_value`; the first argument bounds the depth of the calls. -/
def parseValue : ℕ → List Token → Except Stop (PyValue β × List Token)
  | 0, _ => .error .outOfFuel
  | fuel + 1, tokens =>
    match tokens with
    | ⟨.lbrace, _⟩ :: ⟨.rbrace, _⟩ :: rest => .ok (.dict [], rest)
    | ⟨.lbrace, _⟩ :: rest => parsePairs fuel [] rest
    | ⟨.lbracket, _⟩ :: ⟨.rbracket, _⟩ :: rest => .ok (.list [], rest)
    | ⟨.lbracket, _⟩ :: rest => parseItems fuel [] rest
    | ⟨.string s, _⟩ :: rest => .ok (.str s, rest)
    | ⟨.number n, _⟩ :: rest => .ok (n.toValue, rest)
    | ⟨.identifier name, position⟩ :: rest =>
      match keyword? name with
      | some value => .ok (value, rest)
      | none =>
        if name = ['n', 'e', 'w'] then do
          let (constructor, rest) ← expectIdentifier "Expected constructor name after 'new'." rest
          parseConstructor fuel constructor rest
        else if (current rest).type = .lparen then parseConstructor fuel name rest
        else .error <| invalidSyntax
          s!"Unrecognized identifier '{String.ofList name}' at position {position}."
    | tokens =>
      let curr := current tokens
      .error <| invalidSyntax <| s!"Unexpected token '{shown env curr.type}' ({curr.type.name}) at " ++
        s!"position {curr.position}."

/-- `_parse_object` from the next property on. -/
def parsePairs : ℕ → Spec β → List Token → Except Stop (PyValue β × List Token)
  | 0, _, _ => .error .outOfFuel
  | fuel + 1, entries, tokens =>
    let curr := current tokens
    match propertyName? curr.type with
    | none =>
      .error <| invalidSyntax <| s!"Expected property name in object, found '{shown env curr.type}' " ++
        s!"({curr.type.name}) at position {curr.position}."
    | some key => do
      let rest ← expect .colon s!"Expected ':' after property '{env.str (.str key)}'." tokens.tail
      let (value, rest) ← parseValue fuel rest
      let entries := Dict.set entries key value
      match rest with
      | ⟨.comma, _⟩ :: ⟨.rbrace, _⟩ :: rest => .ok (.dict entries, rest)
      | ⟨.comma, _⟩ :: rest => parsePairs fuel entries rest
      | ⟨.rbrace, _⟩ :: rest => .ok (.dict entries, rest)
      | rest => .error (misplaced env "Expected ',' or '\x7d' in object" (current rest))

/-- `_parse_array` from the next item on. -/
def parseItems : ℕ → List (PyValue β) → List Token → Except Stop (PyValue β × List Token)
  | 0, _, _ => .error .outOfFuel
  | fuel + 1, items, tokens => do
    let (value, rest) ← parseValue fuel tokens
    let items := items ++ [value]
    match rest with
    | ⟨.comma, _⟩ :: ⟨.rbracket, _⟩ :: rest => .ok (.list items, rest)
    | ⟨.comma, _⟩ :: rest => parseItems fuel items rest
    | ⟨.rbracket, _⟩ :: rest => .ok (.list items, rest)
    | rest => .error (misplaced env "Expected ',' or ']' in array" (current rest))

/-- `_parse_bson_constructor` -/
def parseConstructor : ℕ → List Char → List Token → Except Stop (PyValue β × List Token)
  | 0, _, _ => .error .outOfFuel
  | fuel + 1, name, tokens => do
    let written := String.ofList name
    let rest ← expect .lparen s!"Expected '(' after constructor '{written}'." tokens
    match constructorOf? (env.unicode.lower written) with
    | none =>
      .error <| .queryExecution <| "Unsupported MongoDB shell expression: Unsupported BSON " ++
        s!"constructor or function '{written}()'."
    | some kind => do
      let (arg, rest) ← parseValue fuel rest
      match kind, rest with
      | .timestamp, ⟨.comma, _⟩ :: rest => do
        let (increment, rest) ← parseValue fuel rest
        let rest ← expect .rparen (closing kind name) rest
        return (← constructTimestamp env arg increment, rest)
      | kind, rest => do
        let rest ← expect .rparen (closing kind name) rest
        return (← construct env kind name arg, rest)

end

/-! ### Commands -/

/-- A bound on the depth of the calls that no list of tokens exceeds. -/
def enough (tokens : List Token) : ℕ := 2 * tokens.length + 2

def value (tokens : List Token) : Except Stop (PyValue β × List Token) :=
  parseValue env (enough tokens) tokens

/-- An argument that has to be a document. -/
def document (what : String) (tokens : List Token) :
    Except Stop (Spec β × List Token) := do
  let (arg, rest) ← value env tokens
  match arg with
  | .dict entries => return (entries, rest)
  | arg => .error (.queryExecution s!"{what}, found {typeName env arg}.")

/-- The next argument, unless the list of arguments ends, perhaps after a comma. -/
def optional {α : Type} (parse : List Token → Except Stop (α × List Token)) :
    List Token → Except Stop (Option α × List Token)
  | ⟨.comma, _⟩ :: rest =>
    if (current rest).type = .rparen then .ok (none, rest)
    else (parse rest).map fun (arg, rest) => (some arg, rest)
  | rest => .ok (none, rest)

/-- The option of that name in a document of options. -/
def optionOf (name : String) (options : Option (PyValue β)) : Option Bool :=
  match options with
  | some (.dict entries) => (Dict.get? entries (codePoints name)).map truthy
  | _ => none

/-- `_parse_find_args` -/
def parseFindArgs (tokens : List Token) : Except Stop (Spec β × List Token) :=
  if (current tokens).type = .rparen then .ok ([(codePoints "filter", .dict [])], tokens)
  else do
    let (filter, rest) ← document env "MongoDB 'find()' filter must be a document object" tokens
    let (projection, rest) ←
      optional (document env "MongoDB 'find()' projection must be a document object") rest
    return ((codePoints "filter", .dict filter) ::
      (projection.map fun p => (codePoints "projection", .dict p)).toList, rest)

def noDocuments : Stop :=
  .queryExecution "MongoDB 'insertMany()' requires a non-empty array of document objects."

/-- The first item that is not a document, with its place. -/
def firstNonDocument : ℕ → List (PyValue β) → Option (ℕ × PyValue β)
  | _, [] => none
  | i, .dict _ :: items => firstNonDocument (i + 1) items
  | i, item :: _ => some (i, item)

/-- `_parse_insert_many_args` -/
def parseInsertManyArgs (tokens : List Token) : Except Stop (Spec β × List Token) :=
  if (current tokens).type = .rparen then .error noDocuments
  else do
    let (docs, rest) ← value env tokens
    match docs with
    | .list (doc :: others) =>
      match firstNonDocument 0 (doc :: others) with
      | some (i, item) => .error <| .queryExecution <| "MongoDB 'insertMany()' documents must all be " ++
        s!"objects; item at index {i} is {typeName env item}."
      | none => do
        let (options, rest) ← optional (value env) rest
        return ([(codePoints "documents", docs),
          (codePoints "ordered", .bool ((optionOf "ordered" options).getD true))], rest)
    | _ => .error noDocuments

def noUpdate : Stop :=
  .queryExecution "MongoDB 'updateMany()' requires a non-empty update document."

/-- `_parse_update_many_args` -/
def parseUpdateManyArgs (tokens : List Token) : Except Stop (Spec β × List Token) :=
  if (current tokens).type = .rparen then
    .error (.queryExecution "MongoDB 'updateMany()' requires filter and update document arguments.")
  else do
    let (filter, rest) ← document env "MongoDB 'updateMany()' filter must be an object" tokens
    let rest ← expect .comma "Expected ',' between filter and update document in updateMany()." rest
    let (update, rest) ← value env rest
    match update with
    | .dict (entry :: entries) => do
      let (options, rest) ← optional (value env) rest
      return ((codePoints "filter", .dict filter) :: (codePoints "update", .dict (entry :: entries)) ::
        ((optionOf "upsert" options).map fun b => (codePoints "upsert", .bool b)).toList, rest)
    | _ => .error noUpdate

/-- `_parse_delete_many_args` -/
def parseDeleteManyArgs (tokens : List Token) : Except Stop (Spec β × List Token) :=
  if (current tokens).type = .rparen then
    .error (.queryExecution "MongoDB 'deleteMany()' requires a filter document argument.")
  else do
    let (filter, rest) ← document env "MongoDB 'deleteMany()' filter must be an object" tokens
    return ([(codePoints "filter", .dict filter)], rest)

def parseArgs : Operation → List Token → Except Stop (Spec β × List Token)
  | .find => parseFindArgs env
  | .insertMany => parseInsertManyArgs env
  | .updateMany => parseUpdateManyArgs env
  | .deleteMany => parseDeleteManyArgs env

/-- The argument of `skip` or `limit`: an integer, or a Boolean, that is not negative. -/
def isCount : PyValue β → Bool
  | .bool _ => true
  | .int n => 0 ≤ n
  | _ => false

/-- The entry of a modifier with its argument, if the modifier allows it. -/
def modifierEntry (key : String) (arg : PyValue β) : Except Stop (CodePoints × PyValue β) :=
  match key, arg with
  | "sort", .dict _ | "sort", .list _ => .ok (codePoints "sort", arg)
  | "sort", _ => .error (.queryExecution <|
      s!"MongoDB 'sort()' expects an object or list specification, found {typeName env arg}.")
  | key, arg =>
    if isCount arg then .ok (codePoints key, arg)
    else .error (.queryExecution
      s!"MongoDB '{key}()' expects a non-negative integer, found {env.repr arg}.")

/-- The modifiers behind the call, one after the other. -/
def parseModifiers (operation : Operation) (rawOp : List Char) :
    ℕ → Spec β → List Token → Except Stop (Spec β × List Token)
  | 0, _, _ => .error .outOfFuel
  | fuel + 1, spec, tokens =>
    match tokens with
    | ⟨.dot, _⟩ :: rest => do
      let (modName, rest) ← expectIdentifier "Expected modifier name after '.'." rest
      let written := String.ofList modName
      let key := env.unicode.lower written
      if operation ≠ .find then
        .error <| .queryExecution <| "Unsupported MongoDB shell expression: Chained modifier " ++
          s!"'{written}()' is not supported on write operation '{String.ofList rawOp}()'."
      else
        let rest ← expect .lparen s!"Expected '(' after '{written}'." rest
        if key = "pretty" then
          let rest ← expect .rparen "Expected ')' for pretty()." rest
          parseModifiers operation rawOp fuel spec rest
        else if key = "sort" ∨ key = "skip" ∨ key = "limit" then
          let (arg, rest) ← value env rest
          let entry ← modifierEntry env key arg
          let rest ← expect .rparen s!"Expected ')' closing {key}()." rest
          parseModifiers operation rawOp fuel (spec.set entry.1 entry.2) rest
        else
          .error <| .queryExecution <| "Unsupported MongoDB shell expression: " ++
            s!"'{written}()' is not a supported cursor modifier."
    | tokens => .ok (spec, tokens)

def skipSemicolons (tokens : List Token) : List Token :=
  tokens.dropWhile fun token => token.type = .semicolon

/-- `MongoShellParser.parse` -/
def parse (tokens : List Token) : Except Stop (Operation × Spec β) := do
  let curr := current tokens
  if curr.type ≠ .identifier ['d', 'b'] then
    .error <| invalidSyntax <| "Query must begin with 'db.<collection>.<operation>()', found " ++
      s!"'{shown env curr.type}' at position {curr.position}."
  let rest ← expect .dot "Expected '.' after 'db'." tokens.tail
  let (collection, rest) ← expectIdentifier "Expected collection name after 'db.'." rest
  let rest ← expect .dot s!"Expected '.' after 'db.{String.ofList collection}'." rest
  let (rawOp, rest) ←
    expectIdentifier s!"Expected operation name after 'db.{String.ofList collection}.'." rest
  match operationOf? (env.unicode.lower (String.ofList rawOp)) with
  | none =>
    .error <| .queryExecution <| "Unsupported MongoDB shell expression: Unsupported collection " ++
      s!"operation '{String.ofList rawOp}'. Supported operations are: find(), insertMany(), " ++
      "updateMany(), deleteMany()."
  | some operation => do
    let rest ← expect .lparen s!"Expected '(' after '{String.ofList rawOp}'." rest
    let (args, rest) ← parseArgs env operation rest
    let rest ← expect .rparen s!"Expected ')' closing '{String.ofList rawOp}' arguments." rest
    let spec := (codePoints "collection", .str (collection.map Char.toNat)) :: args
    let (spec, rest) ← parseModifiers env operation rawOp (enough rest) spec rest
    let last := current (skipSemicolons rest)
    if last.type ≠ .eof then
      .error <| invalidSyntax <| s!"Unexpected token '{shown env last.type}' at position " ++
        s!"{last.position} after valid query expression."
    return (operation, spec)

end Parser

/-- `parse_mongodb_shell_query` -/
def parseMongodbShellQuery {β : Type} (env : Env β) (query : List Char) :
    Except Stop (Operation × Spec β) := do
  if stripChars query = [] then .error (.queryExecution "Query cannot be empty.")
  Parser.parse env (← Lexer.tokenize env.unicode query)

end AltrStream.Connectors.Shell
