import AltrStream.Planning.Merger
import AltrStream.Python.Scalar

/-! # The values of merged rows

The scalar values that the drivers return, with Python's `<` and `str` on them, and
`_compare_values` of `planning/merger.py`: numbers compare with numbers and everything else with its
own kind only; what does not compare is compared by its text.
-/
namespace AltrStream.Planning
open Foundations Python QueryEngine

/-- The numbers with both infinities. -/
abbrev Extended := WithBot (WithTop ℚ)

def signed (negative : Bool) (magnitude : ℚ) : Extended :=
  ((if negative then -magnitude else magnitude : ℚ) : WithTop ℚ)

def infinity (negative : Bool) : Extended := if negative then ⊥ else ((⊤ : WithTop ℚ) : Extended)

/-- A float other than NaN. -/
structure SignedFloat where
  negative : Bool
  magnitude : PyFloat
  deriving DecidableEq

def SignedFloat.value (x : SignedFloat) : Extended :=
  match x.magnitude with
  | none => infinity x.negative
  | some q => signed x.negative q

/-- `decimal.Decimal` -/
inductive PyDecimal where
  | finite (negative : Bool) (coefficient : ℕ) (exponent : ℤ)
  | infinite (negative : Bool)
  | nan (negative signaling : Bool) (payload : Option ℕ)
  deriving DecidableEq

/-- A UUID is the number of its 128 bits. -/
abbrev PyUuid := Fin (2 ^ 128)

/-- The offset of an aware datetime is in microseconds. -/
inductive SourceValue where
  | bool (value : Bool)
  | int (value : ℤ)
  | float (value : SignedFloat)
  | decimal (value : PyDecimal)
  | str (value : String)
  | date (value : Date)
  | naive (value : DateTime)
  | aware (value : DateTime) (utcoffset : ℤ)
  | uuid (value : PyUuid)
  deriving DecidableEq

/-- The exceptions that a comparison can end with. -/
inductive Raised where
  | typeError
  /-- `decimal.InvalidOperation` -/
  | invalidOperation
  | valueError
  deriving DecidableEq, Repr

/-! ### Texts -/

def signText (negative : Bool) : List Char := if negative then ['-'] else []

/-- `str(d)`: a plain text for small exponents, else one digit before the point. -/
def PyDecimal.text : PyDecimal → List Char
  | .infinite negative => signText negative ++ "Infinity".toList
  | .nan negative signaling payload =>
    signText negative ++ (if signaling then "sNaN" else "NaN").toList ++
      payload.elim [] fun n => (toString n).toList
  | .finite negative coefficient exponent =>
    let digits := (toString coefficient).toList
    let leftdigits := exponent + digits.length
    let dotplace := if exponent ≤ 0 ∧ leftdigits > -6 then leftdigits else 1
    let mantissa :=
      if dotplace ≤ 0 then '0' :: '.' :: (List.replicate (-dotplace).toNat '0' ++ digits)
      else if dotplace ≥ digits.length then
        digits ++ List.replicate (dotplace - digits.length).toNat '0'
      else digits.take dotplace.toNat ++ '.' :: digits.drop dotplace.toNat
    let exp := leftdigits - dotplace
    signText negative ++ mantissa ++
      if exp = 0 then [] else 'E' :: (if exp < 0 then '-' else '+') :: (toString exp.natAbs).toList

/-- `str(dt)` has a blank between date and time. -/
def datetimeText (t : DateTime) : List Char := t.isoChars.map fun c => if c = 'T' then ' ' else c

def offsetText (utcoffset : ℤ) : List Char :=
  let micros := utcoffset.natAbs
  let seconds := micros / 1000000
  let fraction := micros % 1000000
  (if utcoffset < 0 then '-' else '+') :: (zeroPad 2 (seconds / 3600) ++ ':' ::
    (zeroPad 2 (seconds / 60 % 60) ++
      if seconds % 60 = 0 ∧ fraction = 0 then []
      else ':' :: (zeroPad 2 (seconds % 60) ++
        if fraction = 0 then [] else '.' :: zeroPad 6 fraction)))

def uuidText (value : PyUuid) : List Char :=
  let digits := Nat.toDigits 16 value.val
  let hex := List.replicate (32 - digits.length) '0' ++ digits
  hex.take 8 ++ '-' :: ((hex.drop 8).take 4 ++ '-' :: ((hex.drop 12).take 4 ++ '-' ::
    ((hex.drop 16).take 4 ++ '-' :: hex.drop 20)))

namespace SourceValue

/-- The text of a value, an integer's at any length. -/
def textOf : SourceValue → String
  | bool value => if value then "True" else "False"
  | int value => toString value
  | float value => String.ofList (signText value.negative) ++ PyFloat.str value.magnitude
  | decimal value => String.ofList value.text
  | str value => value
  | date value => value.isoformat
  | naive value => String.ofList (datetimeText value)
  | aware value utcoffset => String.ofList (datetimeText value ++ offsetText utcoffset)
  | uuid value => String.ofList (uuidText value)

/-- Whether `str` returns: integers of more than 4300 digits have no text. -/
def hasText : SourceValue → Bool
  | int value => (Nat.toDigits 10 value.natAbs).length ≤ 4300
  | _ => true

/-- `str(value)` -/
def text (v : SourceValue) : Except Raised String :=
  if v.hasText then .ok v.textOf else .error .valueError

/-! ### Comparisons -/

/-- A number or NaN. -/
def number? : SourceValue → Option (Option Extended)
  | bool value => some (some (signed false (if value then 1 else 0)))
  | int value => some (some (signed false value))
  | float value => some (some value.value)
  | decimal (.finite negative coefficient exponent) =>
    some (some (signed negative (coefficient * powerOf 10 exponent)))
  | decimal (.infinite negative) => some (some (infinity negative))
  | decimal (.nan _ _ _) => some none
  | _ => none

/-- `<` of numbers; to order a NaN is an invalid operation. -/
def ltNumber : Option Extended → Option Extended → Except Raised Bool
  | some x, some y => .ok (x < y)
  | _, _ => .error .invalidOperation

/-- The instant of an aware datetime. -/
def utc (value : DateTime) (utcoffset : ℤ) : ℤ := value.instant - utcoffset

/-- `a < b` -/
def lt : SourceValue → SourceValue → Except Raised Bool
  | str a, str b => .ok (a < b)
  | date a, date b => .ok (a.toordinal < b.toordinal)
  | naive a, naive b => .ok (a.instant < b.instant)
  | aware a o, aware b o' => .ok (utc a o < utc b o')
  | uuid a, uuid b => .ok (a < b)
  | a, b =>
    match a.number?, b.number? with
    | some x, some y => ltNumber x y
    | _, _ => .error .typeError

/-- `a > b` is answered by the reflected comparison. -/
def gt (a b : SourceValue) : Except Raised Bool := lt b a

/-- `isinstance(value, (int, float))` -/
def isIntOrFloat : SourceValue → Bool
  | bool _ | int _ | float _ => true
  | _ => false

def compareDirectly (a b : SourceValue) : Except Raised Ordering := do
  if ← lt a b then return .lt
  else if ← gt a b then return .gt
  else return .eq

def compareTexts (a b : SourceValue) : Except Raised Ordering := do
  let sa ← a.text
  let sb ← b.text
  return if sa < sb then .lt else if sa > sb then .gt else .eq

/-- The second `try` of `_compare_values`. -/
def compareOrFallBack (a b : SourceValue) : Except Raised Ordering :=
  match compareDirectly a b with
  | .error .typeError => compareTexts a b
  | answer => answer

/-- Two built-in numbers are compared in a `try` of their own. -/
def compareNumbersFirst (a b : SourceValue) : Except Raised Ordering :=
  if a.isIntOrFloat && b.isIntOrFloat then
    match compareDirectly a b with
    | .ok answer => .ok answer
    | .error _ => compareOrFallBack a b
  else compareOrFallBack a b

end SourceValue

/-- `_compare_values` -/
def compareSourceValues : Option SourceValue → Option SourceValue → Except Raised Ordering
  | none, none => .ok .eq
  | none, some _ => .ok .lt
  | some _, none => .ok .gt
  | some a, some b => a.compareNumbersFirst b

/-- A runtime over these values; `none` stands for any exception. -/
structure SourceRuntime extends Runtime SourceValue where
  lt_eq : ∀ a b, lt a b = (SourceValue.lt a b).toOption
  gt_eq : ∀ a b, gt a b = (SourceValue.gt a b).toOption
  str_eq : ∀ a, str a = a.textOf

/-- The comparator of `_build_row_comparator`, before `cmp_to_key`. -/
def compareSourceRows (py : Casing) (aliases : Dict String String) :
    List (FieldPath × Bool) → Row SourceValue → Row SourceValue → Except Raised Ordering
  | [], _, _ => .ok .eq
  | (field, desc) :: specs, rowA, rowB => do
    let res ← compareSourceValues (sortValue py aliases rowA field.leaf)
      (sortValue py aliases rowB field.leaf)
    if res = .eq then compareSourceRows py aliases specs rowA rowB
    else return directed desc res

end AltrStream.Planning
