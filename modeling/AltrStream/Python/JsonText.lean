import AltrStream.Python.Loads

/-! # The syntax of JSON

Syntax trees of JSON texts, with the blank space and the escapes that were written. Each
tree has its text and its value; numbers that no `int` can hold have none. The value
depends on what a reader makes of the code units of a string: `json.loads` joins two
escapes that are a surrogate pair.
-/
namespace AltrStream.Python
open Foundations JsonDecoder

abbrev Blanks := {text : List Char // ∀ c ∈ text, isSpace c = true}

/-- The parts of a number; an empty fraction or exponent is not written. -/
structure NumberText where
  negative : Bool
  whole : List Char
  fraction : List Char
  exponent : List Char
  whole_digits : whole ≠ [] ∧ (∀ c ∈ whole, c.isDigit = true) ∧ (whole.head? = some '0' → whole = ['0'])
  fraction_digits : ∀ c ∈ fraction, c.isDigit = true
  exponent_digits : exponent = [] ∨ ∃ e sign digits, exponent = e :: (sign ++ digits) ∧
    (e = 'e' ∨ e = 'E') ∧ (sign = [] ∨ sign = ['+'] ∨ sign = ['-']) ∧
    digits ≠ [] ∧ ∀ c ∈ digits, c.isDigit = true

namespace NumberText

variable (n : NumberText)

def sign : List Char := if n.negative then ['-'] else []

def pointed : List Char := if n.fraction = [] then [] else '.' :: n.fraction

def text : List Char := n.sign ++ (n.whole ++ (n.pointed ++ n.exponent))

/-- An integer without a fraction and an exponent, and a float otherwise. -/
def value {β : Type} (u : Unicode) : Option (PyValue β) :=
  if n.pointed ++ n.exponent = [] then (intOfText? u n.text).map .int
  else (floatOfText? u n.text).map .float

end NumberText

/-- A piece of a string: a character or an escape, with the code unit that it stands for. -/
inductive Piece where
  | plain (c : Char) (hplain : c ≠ '"' ∧ c ≠ '\\' ∧ 0x20 ≤ c.toNat)
  | escape (c char : Char) (hescape : jsonEscape? c = some char)
  | unit (a b c d : Char) (code : ℕ) (hcode : hexValue? [a, b, c, d] = some code)

namespace Piece

def text : Piece → List Char
  | plain c _ => [c]
  | escape c _ _ => ['\\', c]
  | unit a b c d _ _ => ['\\', 'u', a, b, c, d]

def code : Piece → ℕ
  | plain c _ => c.toNat
  | escape _ char _ => char.toNat
  | unit _ _ _ _ code _ => code

end Piece

/-- A string between its quotes. -/
def quoted (pieces : List Piece) : List Char := '"' :: (pieces.flatMap Piece.text ++ ['"'])

/-- What a tree is of. -/
inductive JsonKind where
  | value
  /-- The items of an array with its closing bracket. -/
  | items
  /-- The members of an object with its closing brace. -/
  | members

inductive JsonText : JsonKind → Type where
  | null : JsonText .value
  | bool (b : Bool) : JsonText .value
  | number (n : NumberText) : JsonText .value
  | string (pieces : List Piece) : JsonText .value
  | emptyArray (inside : Blanks) : JsonText .value
  | array (items : JsonText .items) : JsonText .value
  | emptyObject (inside : Blanks) : JsonText .value
  | object (members : JsonText .members) : JsonText .value
  | lastItem (before : Blanks) (item : JsonText .value) (after : Blanks) : JsonText .items
  | nextItem (before : Blanks) (item : JsonText .value) (after : Blanks) (more : JsonText .items) :
      JsonText .items
  | lastMember (before : Blanks) (key : List Piece) (colon behind : Blanks) (item : JsonText .value)
      (after : Blanks) : JsonText .members
  | nextMember (before : Blanks) (key : List Piece) (colon behind : Blanks) (item : JsonText .value)
      (after : Blanks) (more : JsonText .members) : JsonText .members

/-- The values of the trees of a kind. -/
abbrev JsonKind.Meaning (β : Type) : JsonKind → Type
  | value => PyValue β
  | items => List (PyValue β)
  | members => List (CodePoints × PyValue β)

namespace JsonText

def text {kind : JsonKind} : JsonText kind → List Char
  | null => ['n', 'u', 'l', 'l']
  | bool true => ['t', 'r', 'u', 'e']
  | bool false => ['f', 'a', 'l', 's', 'e']
  | number n => n.text
  | string pieces => quoted pieces
  | emptyArray inside => '[' :: (inside.1 ++ [']'])
  | array items => '[' :: items.text
  | emptyObject inside => '{' :: (inside.1 ++ ['}'])
  | object members => '{' :: members.text
  | lastItem before item after => before.1 ++ (item.text ++ (after.1 ++ [']']))
  | nextItem before item after more => before.1 ++ (item.text ++ (after.1 ++ ',' :: more.text))
  | lastMember before key colon behind item after =>
    before.1 ++ (quoted key ++ (colon.1 ++ ':' :: (behind.1 ++ (item.text ++ (after.1 ++ ['}'])))))
  | nextMember before key colon behind item after more =>
    before.1 ++
      (quoted key ++ (colon.1 ++ ':' :: (behind.1 ++ (item.text ++ (after.1 ++ ',' :: more.text)))))

section
variable (items : JsonText .items) (members : JsonText .members) (inside before after : Blanks)
  (item : JsonText .value) (key : List Piece) (colon behind : Blanks)

theorem text_emptyArray : (emptyArray inside).text = '[' :: (inside.1 ++ [']']) := rfl

theorem text_array : (array items).text = '[' :: items.text := rfl

theorem text_emptyObject : (emptyObject inside).text = '{' :: (inside.1 ++ ['}']) := rfl

theorem text_object : (object members).text = '{' :: members.text := rfl

theorem text_lastItem :
    (lastItem before item after).text = before.1 ++ (item.text ++ (after.1 ++ [']'])) := rfl

theorem text_nextItem : (nextItem before item after items).text =
    before.1 ++ (item.text ++ (after.1 ++ ',' :: items.text)) := rfl

theorem text_lastMember : (lastMember before key colon behind item after).text =
    before.1 ++ (quoted key ++ (colon.1 ++ ':' :: (behind.1 ++ (item.text ++ (after.1 ++ ['}']))))) :=
  rfl

theorem text_nextMember : (nextMember before key colon behind item after members).text =
    before.1 ++ (quoted key ++
      (colon.1 ++ ':' :: (behind.1 ++ (item.text ++ (after.1 ++ ',' :: members.text))))) := rfl

end

section
variable {β : Type} (u : Unicode) (read : CodePoints → CodePoints)

/-- The value for a reader of strings. -/
def value {kind : JsonKind} : JsonText kind → Option (kind.Meaning β)
  | null => some .none
  | bool b => some (.bool b)
  | number n => n.value u
  | string pieces => some (.str (read (pieces.map Piece.code)))
  | emptyArray _ => some (.list [])
  | array items => items.value.map .list
  | emptyObject _ => some (.dict [])
  | object members => members.value.map fun entries => .dict (Dict.ofEntries entries)
  | lastItem _ item _ => item.value.map fun v => [v]
  | nextItem _ item _ more => item.value.bind fun v => more.value.map fun items => v :: items
  | lastMember _ key _ _ item _ => item.value.map fun v => [(read (key.map Piece.code), v)]
  | nextMember _ key _ _ item _ more =>
    item.value.bind fun v => more.value.map fun entries =>
      (read (key.map Piece.code), v) :: entries

variable (items : JsonText .items) (members : JsonText .members) (before after : Blanks)
  (item : JsonText .value) (key : List Piece) (colon behind : Blanks)

theorem value_array : ((array items).value u read : Option (PyValue β)) =
    (items.value u read).map .list := rfl

theorem value_object : ((object members).value u read : Option (PyValue β)) =
    (members.value u read).map fun entries => .dict (Dict.ofEntries entries) := rfl

theorem value_lastItem : ((lastItem before item after).value u read : Option (List (PyValue β))) =
    (item.value u read).map fun v => [v] := rfl

theorem value_nextItem :
    ((nextItem before item after items).value u read : Option (List (PyValue β))) =
      (item.value u read).bind fun v => (items.value u read).map fun items => v :: items := rfl

theorem value_lastMember : ((lastMember before key colon behind item after).value u read :
    Option (List (CodePoints × PyValue β))) =
      (item.value u read).map fun v => [(read (key.map Piece.code), v)] := rfl

theorem value_nextMember : ((nextMember before key colon behind item after members).value u read :
    Option (List (CodePoints × PyValue β))) =
      (item.value u read).bind fun v => (members.value u read).map fun entries =>
        (read (key.map Piece.code), v) :: entries := rfl

end

end JsonText

end AltrStream.Python
