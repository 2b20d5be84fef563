import AltrStream.Python.Calendar
import Mathlib.Algebra.Order.WithTop.Untop0
import Mathlib.Data.Rat.Defs
import Mathlib.Data.Nat.Log
import Mathlib.Data.Rat.Floor

/-! # Scalar Python values

The objects that a lowerer binds as query parameters. A float is the number it
stands for; the lexer reads no sign, so the only infinity is the positive one.
-/
namespace AltrStream.Python

abbrev PyFloat := WithTop ℚ

inductive Scalar where
  | none
  | bool (value : Bool)
  | int (value : ℤ)
  | float (value : PyFloat)
  | str (value : String)
  | date (value : Date)
  | datetime (value : DateTime)
  deriving DecidableEq

/-! ## Python's `float`

Rounding of an exact number to the nearest binary64 value, ties to even, and
`repr`, the shortest decimal text that rounds back to the value.
-/

def roundHalfEven (q : ℚ) : ℤ :=
  let down := ⌊q⌋
  let rest := q - down
  if rest < 1 / 2 then down
  else if 1 / 2 < rest then down + 1
  else if down % 2 = 0 then down
  else down + 1

/-- `base ** e`, exactly. -/
def powerOf (base : ℕ) (e : ℤ) : ℚ :=
  if 0 ≤ e then (base : ℚ) ^ e.toNat else 1 / (base : ℚ) ^ (-e).toNat

/-- The integer part of the logarithm of a positive number. -/
def logFloor (base : ℕ) (q : ℚ) : ℤ :=
  let e : ℤ := (Nat.log base q.num.natAbs : ℤ) - Nat.log base q.den
  if powerOf base e ≤ q then e else e - 1

namespace PyFloat

/-- The binary64 value nearest to a non-negative number. -/
def ofRat (q : ℚ) : PyFloat :=
  if q = 0 then (0 : ℚ)
  else
    let ulp := powerOf 2 (max (logFloor 2 q) (-1022) - 52)
    let rounded := roundHalfEven (q / ulp) * ulp
    if powerOf 2 1024 ≤ rounded then ⊤ else (rounded : ℚ)

/-- The shortest digits, as a whole number with its count, and the exponent of the first one. -/
def shortestDigits (q : ℚ) : ℕ × ℕ × ℤ :=
  let k := logFloor 10 q
  let attempt (p : ℕ) : ℕ × ℕ × ℤ :=
    let m := (roundHalfEven (q / powerOf 10 (k - p + 1))).toNat
    if m = 10 ^ p then (10 ^ (p - 1), p, k + 1) else (m, p, k)
  let exact (c : ℕ × ℕ × ℤ) : Bool := ofRat (c.1 * powerOf 10 (c.2.2 - c.2.1 + 1)) = (q : PyFloat)
  (((List.range 17).map fun i => attempt (i + 1)).find? exact).getD (attempt 17)

def exponentText (e : ℤ) : String :=
  let digits := toString e.natAbs
  (if e < 0 then "-" else "+") ++ if e.natAbs < 10 then "0" ++ digits else digits

/-- `str(x)` of a non-negative float. -/
def str : PyFloat → String
  | none => "inf"
  | some q =>
    if q = 0 then "0.0"
    else
      let (m, p, k) := shortestDigits q
      let digits := (toString m).toList
      if -4 ≤ k ∧ k < 16 then
        if k < 0 then "0." ++ String.ofList (List.replicate (-k - 1).toNat '0' ++ digits)
        else if p ≤ k.toNat + 1 then
          String.ofList (digits ++ List.replicate (k.toNat + 1 - p) '0') ++ ".0"
        else String.ofList (digits.take (k.toNat + 1) ++ '.' :: digits.drop (k.toNat + 1))
      else
        let fraction := if p = 1 then [] else '.' :: digits.drop 1
        String.ofList (digits.take 1 ++ fraction) ++ "e" ++ exponentText k

end PyFloat

/-- `float(n)`; `none` is the `OverflowError` of an integer that is too large. -/
def floatOfInt? (n : ℤ) : Option ℚ :=
  match PyFloat.ofRat n.natAbs with
  | none => none
  | some q => some (if n < 0 then -q else q)

end AltrStream.Python
