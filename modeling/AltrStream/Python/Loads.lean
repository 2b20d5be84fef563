import AltrStream.Foundations.Dict
import AltrStream.Python.Scalar
import AltrStream.Python.Text

/-! # JSON values in Python

What `json.loads` returns, and how Python's operators treat it: truth values,
`or`, `in` and `dict.get`.
-/
namespace AltrStream.Python
open Foundations

/-- A float of either sign. -/
inductive JsonFloat where
  | finite (negative : Bool) (magnitude : ℚ)
  | infinite (negative : Bool)
  | nan
  deriving DecidableEq

inductive Json where
  | null
  | bool (value : Bool)
  | int (value : ℤ)
  | float (value : JsonFloat)
  | text (value : String)
  | arr (items : List Json)
  | obj (entries : List (String × Json))

namespace Json

/-- `type(value).__name__` -/
def typeName : Json → String
  | null => "NoneType"
  | bool _ => "bool"
  | int _ => "int"
  | float _ => "float"
  | text _ => "str"
  | arr _ => "list"
  | obj _ => "dict"

/-- `bool(value)` -/
def truthy : Json → Bool
  | null => false
  | bool b => b
  | int n => n ≠ 0
  | float (.finite _ q) => q ≠ 0
  | float _ => true
  | text s => s ≠ ""
  | arr items => !items.isEmpty
  | obj entries => !entries.isEmpty

/-- `a or b` -/
def orElse (a b : Json) : Json := if a.truthy then a else b

/-- None, or a text. -/
def ofText? : Option String → Json
  | none => null
  | some s => text s

def text? : Json → Option String
  | text s => some s
  | _ => none

def isText (v : Json) : Bool := v.text?.isSome

/-- `c in value` for a single character; None, numbers and Booleans contain nothing. -/
def containsChar (c : Char) : Json → Except String Bool
  | text s => .ok (c ∈ s.toList)
  | arr items => .ok (items.any fun v => v.text? = some (String.singleton c))
  | obj entries => .ok (entries.any fun e => e.1 = String.singleton c)
  | v => .error s!"argument of type '{v.typeName}' is not iterable"

/-- `value.get(key, default)`; only dictionaries have the method. -/
def get (v : Json) (key : String) (default : Json) : Except String Json :=
  match v with
  | obj entries => .ok ((Dict.get? entries key).getD default)
  | v => .error s!"'{v.typeName}' object has no attribute 'get'"

end Json

/-- `str(value)`. Texts are themselves; how the others look depends on Unicode's tables too. -/
structure Printer where
  str : Json → String
  str_text : ∀ s, str (.text s) = s

/-- A printer that shows the type of what is not a text. -/
def Printer.names : Printer where
  str v := v.text?.getD v.typeName
  str_text _ := rfl

/-! ## Values of native commands and `json.loads`

A `str` is the list of its code points, among which an escape can put a single
surrogate. `json.loads` follows CPython's scanner: it joins two escapes that are a
surrogate pair, refuses control characters in strings, and of a key that is written
twice keeps the last value.
-/

/-- The code points of a `str`. -/
abbrev CodePoints := List ℕ

def codePoints (s : String) : CodePoints := s.toList.map Char.toNat

/-- A Python value in a native command; `β` are objects of other classes. -/
inductive PyValue (β : Type) where
  | none
  | bool (value : Bool)
  | int (value : ℤ)
  | float (value : JsonFloat)
  | str (value : CodePoints)
  | list (items : List (PyValue β))
  | dict (entries : List (CodePoints × PyValue β))
  | object (value : β)

/-! ### Numbers -/

/-- A text without its sign, and whether that is a minus. -/
def unsigned : List Char → Bool × List Char
  | '-' :: digits => (true, digits)
  | '+' :: digits => (false, digits)
  | digits => (false, digits)

/-- The float of a sign and a magnitude that is not rounded yet. -/
def JsonFloat.ofRat (negative : Bool) (magnitude : ℚ) : JsonFloat :=
  match PyFloat.ofRat magnitude with
  | none => .infinite negative
  | some q => .finite negative q

section
variable (u : Unicode)

/-- `int(text)` without spaces and underscores. -/
def intOfText? (text : List Char) : Option ℤ :=
  let (negative, digits) := unsigned text
  if digits = [] then none
  else (u.int digits).toOption.map fun n => if negative then -n else n

/-- The exponent after a mantissa; none is no exponent at all. -/
def exponentOfText? : List Char → Option ℤ
  | [] => some 0
  | c :: text =>
    let (negative, digits) := unsigned text
    if (c = 'e' ∨ c = 'E') ∧ digits ≠ [] ∧ digits.all u.isDecimal then
      some (if negative then -u.decimalValue digits else u.decimalValue digits)
    else none

/-- `float(text)` without spaces, underscores and words. -/
def floatOfText? (text : List Char) : Option JsonFloat :=
  let (negative, text) := unsigned text
  let whole := text.takeWhile u.isDecimal
  let afterWhole := text.dropWhile u.isDecimal
  let hasPoint := afterWhole.head? = some '.'
  let fraction := if hasPoint then afterWhole.tail.takeWhile u.isDecimal else []
  let afterFraction := if hasPoint then afterWhole.tail.dropWhile u.isDecimal else afterWhole
  if whole ++ fraction = [] then none
  else (exponentOfText? u afterFraction).map fun e =>
    .ofRat negative (u.decimalValue (whole ++ fraction) * powerOf 10 (e - fraction.length))

end

/-! ### Strings -/

def isHighSurrogate (c : ℕ) : Bool := 0xD800 ≤ c && c ≤ 0xDBFF

def isLowSurrogate (c : ℕ) : Bool := 0xDC00 ≤ c && c ≤ 0xDFFF

/-- Every high surrogate with a low one right after it becomes the character that they encode. -/
def joinPairs : CodePoints → CodePoints
  | high :: low :: rest =>
    if isHighSurrogate high && isLowSurrogate low then
      (0x10000 + (high - 0xD800) * 0x400 + (low - 0xDC00)) :: joinPairs rest
    else high :: joinPairs (low :: rest)
  | rest => rest

def hexDigit? (c : Char) : Option ℕ :=
  if c.isDigit then some (c.toNat - '0'.toNat)
  else if 'a' ≤ c ∧ c ≤ 'f' then some (c.toNat - 'a'.toNat + 10)
  else if 'A' ≤ c ∧ c ≤ 'F' then some (c.toNat - 'A'.toNat + 10)
  else none

/-- The number that hexadecimal digits stand for. -/
def hexValue? (digits : List Char) : Option ℕ :=
  (digits.mapM hexDigit?).map (List.foldl (fun n d => 16 * n + d) 0)

/-- The character that an escape other than `\u` stands for. -/
def jsonEscape? : Char → Option Char
  | '"' => some '"'
  | '\\' => some '\\'
  | '/' => some '/'
  | 'b' => some '\x08'
  | 'f' => some '\x0c'
  | 'n' => some '\n'
  | 'r' => some '\r'
  | 't' => some '\t'
  | _ => none

namespace JsonDecoder

/-- The code units of a string up to its closing quote, and the text behind it. -/
def scanUnits : List Char → Option (CodePoints × List Char)
  | [] => none
  | '"' :: rest => some ([], rest)
  | '\\' :: 'u' :: a :: b :: c :: d :: rest => do
    let unit ← hexValue? [a, b, c, d]
    let (units, stop) ← scanUnits rest
    return (unit :: units, stop)
  | '\\' :: escaped :: rest => do
    let char ← jsonEscape? escaped
    let (units, stop) ← scanUnits rest
    return (char.toNat :: units, stop)
  | char :: rest => do
    if char.toNat < 0x20 ∨ char = '\\' then none
    let (units, stop) ← scanUnits rest
    return (char.toNat :: units, stop)

def scanString (text : List Char) : Option (CodePoints × List Char) :=
  (scanUnits text).map fun (units, stop) => (joinPairs units, stop)

def isSpace (c : Char) : Bool := c ∈ [' ', '\t', '\n', '\r']

def skipSpace (text : List Char) : List Char := text.dropWhile isSpace

/-- The digits of a number up to its fraction: a zero stands alone. -/
def scanDigits : List Char → Option (List Char × List Char)
  | '0' :: rest => some (['0'], rest)
  | c :: rest =>
    if c.isDigit then some (c :: rest.takeWhile Char.isDigit, rest.dropWhile Char.isDigit) else none
  | [] => none

/-- The characters of a number up to its fraction, if the text starts with one. -/
def scanWhole (text : List Char) : Option (List Char × List Char) :=
  if text.head? = some '-' then
    (scanDigits text.tail).map fun (digits, rest) => ('-' :: digits, rest)
  else scanDigits text

/-- A point and the digits after it, if there are any. -/
def scanFraction : List Char → List Char × List Char
  | '.' :: c :: rest =>
    if c.isDigit then ('.' :: c :: rest.takeWhile Char.isDigit, rest.dropWhile Char.isDigit)
    else ([], '.' :: c :: rest)
  | rest => ([], rest)

/-- An `e`, a sign, if any, and the digits after it, if there are any. -/
def scanExponent (text : List Char) : List Char × List Char :=
  match text with
  | e :: rest =>
    let (sign, digits) :=
      if rest.head? = some '-' ∨ rest.head? = some '+' then (rest.take 1, rest.tail) else ([], rest)
    if (e = 'e' ∨ e = 'E') ∧ (digits.head?.any Char.isDigit) then
      (e :: sign ++ digits.takeWhile Char.isDigit, digits.dropWhile Char.isDigit)
    else ([], text)
  | [] => ([], [])

section
variable {β : Type} (u : Unicode)

def scanNumber (text : List Char) : Option (PyValue β × List Char) := do
  let (whole, rest) ← scanWhole text
  let (fraction, rest) := scanFraction rest
  let (exponent, rest) := scanExponent rest
  if fraction ++ exponent = [] then return (.int (← intOfText? u whole), rest)
  else return (.float (← floatOfText? u (whole ++ fraction ++ exponent)), rest)

/-- The words that stand for a value. -/
def words : List (List Char × PyValue β) :=
  [(['n', 'u', 'l', 'l'], .none), (['t', 'r', 'u', 'e'], .bool true),
   (['f', 'a', 'l', 's', 'e'], .bool false), (['N', 'a', 'N'], .float .nan),
   (['I', 'n', 'f', 'i', 'n', 'i', 't', 'y'], .float (.infinite false)),
   (['-', 'I', 'n', 'f', 'i', 'n', 'i', 't', 'y'], .float (.infinite true))]

/-- A word or a number. -/
def scanPlain (text : List Char) : Option (PyValue β × List Char) :=
  match words.find? fun w => w.1 <+: text with
  | some (word, value) => some (value, text.drop word.length)
  | none => scanNumber u text

mutual

/-- `scan_once`; the first argument bounds the depth of the calls. -/
def scanOnce : ℕ → List Char → Option (PyValue β × List Char)
  | 0, _ => none
  | _ + 1, [] => none
  | fuel + 1, c :: rest =>
    if c = '"' then (scanString rest).map fun (s, stop) => (.str s, stop)
    else if c = '{' then
      match skipSpace rest with
      | '}' :: stop => some (.dict [], stop)
      | text => scanPairs fuel [] text
    else if c = '[' then
      match skipSpace rest with
      | ']' :: stop => some (.list [], stop)
      | text => scanItems fuel [] text
    else scanPlain u (c :: rest)

/-- The pairs of an object from the next key on. -/
def scanPairs : ℕ → List (CodePoints × PyValue β) → List Char → Option (PyValue β × List Char)
  | 0, _, _ => none
  | fuel + 1, entries, text =>
    match text with
    | '"' :: rest => do
      let (key, afterKey) ← scanString rest
      match skipSpace afterKey with
      | ':' :: afterColon =>
        let (value, afterValue) ← scanOnce fuel (skipSpace afterColon)
        let entries := Dict.set entries key value
        match skipSpace afterValue with
        | '}' :: stop => some (.dict entries, stop)
        | ',' :: more => scanPairs fuel entries (skipSpace more)
        | _ => none
      | _ => none
    | _ => none

/-- The items of an array from the next one on. -/
def scanItems : ℕ → List (PyValue β) → List Char → Option (PyValue β × List Char)
  | 0, _, _ => none
  | fuel + 1, items, text => do
    let (value, afterValue) ← scanOnce fuel text
    match skipSpace afterValue with
    | ']' :: stop => some (.list (items ++ [value]), stop)
    | ',' :: more => scanItems fuel (items ++ [value]) (skipSpace more)
    | _ => none

end

end

end JsonDecoder

/-- `json.loads(text)`; `none` is an exception. -/
def loads {β : Type} (u : Unicode) (text : List Char) : Option (PyValue β) :=
  if text.head? = some '\uFEFF' then none
  else
    match JsonDecoder.scanOnce u (2 * text.length + 2) (JsonDecoder.skipSpace text) with
    | some (value, rest) => if JsonDecoder.skipSpace rest = [] then some value else none
    | none => none

end AltrStream.Python
