import AltrStream.Python.Scalar

/-! # Python's `str`

What the interpreter's Unicode tables say of a character, and the conversions
of digit texts. A development works for every table; `Unicode.ascii` is the one
that knows the ASCII characters only.
-/
namespace AltrStream.Python

/-- The Unicode tables behind the methods of `str`. -/
structure Unicode where
  isdigit : Char → Bool
  isalpha : Char → Bool
  isalnum : Char → Bool
  /-- The value of a decimal digit (category Nd). -/
  decimal? : Char → Option ℕ
  upper : String → String
  lower : String → String
  repr : Char → String

namespace Unicode

def ascii : Unicode where
  isdigit := Char.isDigit
  isalpha := Char.isAlpha
  isalnum := Char.isAlphanum
  decimal? := asciiDigit?
  upper s := String.ofList (s.toList.map Char.toUpper)
  lower s := String.ofList (s.toList.map Char.toLower)
  repr c := String.ofList ['\'', c, '\'']

variable (u : Unicode)

def isDecimal (c : Char) : Bool := (u.decimal? c).isSome

/-- `repr(s)` of a text without quotes and backslashes. -/
def reprText (s : List Char) : String := "'" ++ String.ofList s ++ "'"

/-- The number that decimal digits stand for. -/
def decimalValue (s : List Char) : ℕ := s.foldl (fun n c => 10 * n + (u.decimal? c).getD 0) 0

/-- `int(s)` on digits: every digit must be decimal, and at most 4300 of them may stand
in front of the first one that is not. -/
def int (s : List Char) : Except String ℤ :=
  let scanned := s.takeWhile u.isDecimal
  if 4300 < scanned.length then
    .error <| s!"Exceeds the limit (4300 digits) for integer string conversion: value has " ++
      s!"{scanned.length} digits; use sys.set_int_max_str_digits() to increase the limit"
  else if scanned.length = s.length then .ok (u.decimalValue s)
  else .error s!"invalid literal for int() with base 10: {reprText (s.take 198)}"

/-- `float(f"{whole}.{fraction}")` on digits. -/
def float (whole fraction : List Char) : Except String PyFloat :=
  if (whole ++ fraction).all u.isDecimal then
    .ok (PyFloat.ofRat (u.decimalValue (whole ++ fraction) / 10 ^ fraction.length))
  else
    let text := whole ++ '.' :: fraction
    .error s!"could not convert string to float: {reprText text}"

end Unicode

/-- The tables know the ASCII characters. -/
structure AsciiTables (u : Unicode) : Prop where
  isdigit : ∀ c : Char, c.toNat < 128 → u.isdigit c = c.isDigit
  isalpha : ∀ c : Char, c.toNat < 128 → u.isalpha c = c.isAlpha
  isalnum : ∀ c : Char, c.toNat < 128 → u.isalnum c = c.isAlphanum
  decimal : ∀ c : Char, c.toNat < 128 → u.decimal? c = asciiDigit? c
  lower : ∀ s : List Char, (∀ c ∈ s, c.toNat < 128) →
    u.lower (String.ofList s) = String.ofList (s.map Char.toLower)

theorem asciiTables_ascii : AsciiTables .ascii where
  isdigit _ _ := rfl
  isalpha _ _ := rfl
  isalnum _ _ := rfl
  decimal _ _ := rfl
  lower s _ := by
    change String.ofList ((String.ofList s).toList.map Char.toLower) = _
    rw [String.toList_ofList]

/-- A property of the ASCII characters is checked one by one. -/
theorem forall_ascii {p : Char → Prop} (h : ∀ n < 128, p (Char.ofNat n)) {c : Char} (hc : c.toNat < 128) :
    p c := by
  have hn := h c.toNat hc
  rwa [Char.ofNat_toNat] at hn

end AltrStream.Python
