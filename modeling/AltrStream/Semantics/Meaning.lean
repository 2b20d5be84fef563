import AltrStream.QueryEngine.BoundAst
import Mathlib.Data.Rat.Encodable
import Mathlib.Data.String.Basic
import Mathlib.Data.Sum.Order
import Mathlib.Data.List.Infix

/-! # Stored values

The non-NULL values of a column, ordered within each kind, and how a bound
parameter is read when it meets one. A temporal column reads an ISO text as
the instant it names; any other column keeps texts and shows dates as ISO text.
-/
namespace AltrStream.QueryEngine

/-- The order relation that a comparison operator names. -/
def ComparisonOperator.holds {V : Type*} [LinearOrder V] : ComparisonOperator → V → V → Bool
  | eq, x, y => x = y
  | neq, x, y => x ≠ y
  | gt, x, y => y < x
  | lt, x, y => x < y
  | gte, x, y => y ≤ x
  | lte, x, y => x ≤ y

end AltrStream.QueryEngine

namespace AltrStream.Semantics
open Python QueryEngine

inductive Value where
  | number (n : PyFloat)
  | text (s : String)
  | boolean (b : Bool)
  | instant (t : ℕ)

namespace Value

def key : Value → PyFloat ⊕ₗ String ⊕ₗ Bool ⊕ₗ ℕ
  | number n => toLex (.inl n)
  | text s => toLex (.inr (toLex (.inl s)))
  | boolean b => toLex (.inr (toLex (.inr (toLex (.inl b)))))
  | instant t => toLex (.inr (toLex (.inr (toLex (.inr t)))))

theorem key_injective : Function.Injective key := by
  intro a b h
  cases a <;> cases b <;> simp_all [key]

instance : LinearOrder Value := LinearOrder.lift' key key_injective

end Value

/-- The current date and time that `TODAY` and `NOW` stand for. -/
structure Clock where
  today : Date
  now : DateTime

/-- The start of the year 2026. -/
def Clock.newYear : Clock where
  today := ⟨2026, 1, 1, by decide, by decide, by decide⟩
  now := .ofDate ⟨2026, 1, 1, by decide, by decide, by decide⟩

def Clock.read (clock : Clock) : TemporalKeyword → Scalar
  | .today => .date clock.today
  | .now => .datetime clock.now

/-- The instant that an ISO text of a date or of a start of day names. -/
def isoInstant? (s : String) : Option ℕ :=
  let date := s.toList.take 10
  let time := s.toList.drop 10
  if time = [] ∨ time = "T00:00:00".toList then
    match Date.fromisoformat date with
    | .ok d => some d.midnight
    | .error _ => none
  else none

/-- What a scalar denotes in a column, `temporal` or not; `None` is NULL. -/
def readScalar (temporal : Bool) : Scalar → Option Value
  | .none => none
  | .bool b => some (.number (if b then 1 else 0))
  | .int n => some (.number ((n : ℚ) : PyFloat))
  | .float x => some (.number x)
  | .str s =>
    if temporal then some ((isoInstant? s).elim (.text s) .instant) else some (.text s)
  | .date d => if temporal then some (.instant d.midnight) else some (.text d.isoformat)
  | .datetime t => if temporal then some (.instant t.instant) else some (.text t.isoformat)

theorem isoInstant?_date (d : Date) : isoInstant? d.isoformat = some d.midnight := by
  have hlen : d.isoChars.length = 10 := by simp [Date.isoChars, zeroPad]
  have htake : d.isoChars.take 10 = d.isoChars := List.take_of_length_le hlen.le
  have hdrop : d.isoChars.drop 10 = [] := List.drop_of_length_le hlen.le
  simp [isoInstant?, Date.isoformat, htake, hdrop, d.fromisoformat_isoChars]

theorem isoInstant?_datetime (d : Date) :
    isoInstant? (DateTime.ofDate d).isoformat = some d.midnight := by
  have hlen : d.isoChars.length = 10 := by simp [Date.isoChars, zeroPad]
  have htime : (DateTime.ofDate d).isoChars = d.isoChars ++ "T00:00:00".toList := by
    have hzero : 'T' :: (zeroPad 2 0 ++ ':' :: (zeroPad 2 0 ++ ':' :: zeroPad 2 0)) =
        "T00:00:00".toList := by decide
    rw [← hzero]
    simp [DateTime.isoChars, DateTime.ofDate]
  have htake : (d.isoChars ++ "T00:00:00".toList).take 10 = d.isoChars := by
    rw [List.take_append_of_le_length hlen.ge, List.take_of_length_le hlen.le]
  have hdrop : (d.isoChars ++ "T00:00:00".toList).drop 10 = "T00:00:00".toList := by
    rw [List.drop_append_of_le_length hlen.ge, List.drop_of_length_le hlen.le, List.nil_append]
  simp only [isoInstant?, DateTime.isoformat, String.toList_ofList, htime, htake, hdrop,
    d.fromisoformat_isoChars, or_true, if_true]

/-- Drivers that take dates and drivers that take their ISO texts bind the same value. -/
@[simp] theorem readScalar_str_isoformat (temporal : Bool) (d : Date) :
    readScalar temporal (.str d.isoformat) = readScalar temporal (.date d) := by
  cases temporal <;> simp [readScalar, isoInstant?_date]

@[simp] theorem readScalar_str_datetime (temporal : Bool) (d : Date) :
    readScalar temporal (.str (DateTime.ofDate d).isoformat) =
      readScalar temporal (.datetime (.ofDate d)) := by
  cases temporal <;> simp [readScalar, isoInstant?_datetime]

/-! ## What AltrQL predicates mean

The two-valued meaning of a field expression, stated from the language's
specification and independent of any lowerer: `=` is membership, `!=` is its
complement (so NULL rows are included unless NULL is excluded explicitly), a
date equated with a timestamp column is the half-open day, the four orderings
are false on NULL, and the string operators test texts.
-/
open Foundations

/-- How the literals of a query are read against one column. -/
structure Reading where
  /-- `none` is NULL. -/
  literal : LiteralValue → Option Value
  isTimestamp : Bool

/-- The value of a literal for a SQL column. -/
def readLiteral (clock : Clock) (temporal : Bool) : LiteralValue → Option Value
  | .string s => readScalar temporal (.str s)
  | .integer n => readScalar temporal (.int n)
  | .float x => readScalar temporal (.float x)
  | .boolean b => readScalar temporal (.bool b)
  | .null => none
  | .temporal (.keyword k) => readScalar temporal (clock.read k)
  | .temporal (.value d) => readScalar temporal (.date d)

def sqlReading (clock : Clock) (col : BoundFieldPath) : Reading where
  literal := readLiteral clock col.isTemporal
  isTimestamp := col.isTimestampField

/-- `test` of the characters of a text value; false on NULL. -/
def textTest (test : List Char → Bool) : Option Value → Bool
  | some (.text s) => test s.toList
  | _ => false

def has (v : Option Value) (s : String) : Bool := textTest (fun t => s.toList <:+: t) v

namespace Reading

variable (ρ : Reading)

/-- The half-open day that a date-only literal stands for when it is equated
with a timestamp column. -/
def day? : LiteralValue → Option (Value × Value)
  | .temporal (.value d) =>
    if ρ.isTimestamp then some (.instant d.midnight, .instant (d.midnight + dayLength)) else none
  | _ => none

def order (op : ComparisonOperator) : Option Value → Option Value → Bool
  | some x, some y => op.holds x y
  | _, _ => false

/-- `column = literal` -/
def equals (v : Option Value) (l : LiteralValue) : Bool :=
  match ρ.day? l with
  | some (start, stop) => order .gte v (some start) && order .lt v (some stop)
  | none => v = ρ.literal l

def compare (v : Option Value) : ComparisonOperator → LiteralValue → Bool
  | .eq, l => ρ.equals v l
  | .neq, l => !ρ.equals v l
  | op, l => order op v (ρ.literal l)

def between (v : Option Value) (r : Range) : Bool :=
  order .gte v (ρ.literal r.start) && order .lte v (ρ.literal r.stop)

/-- The value belongs to an element of a value set. -/
def memberOf (v : Option Value) : ValueSetElement → Bool
  | .literal l => ρ.equals v l
  | .range r => ρ.between v r
  | .constraint c => ρ.compare v c.operator c.value
  | .compound cs => cs.all fun c => ρ.compare v c.operator c.value

/-- The value belongs to an operand. -/
def member (v : Option Value) : Operand → Bool
  | .literal l => ρ.equals v l
  | .valueSet elements => elements.any (ρ.memberOf v)
  | .range r => ρ.between v r
  | .constraint c => ρ.compare v c.operator c.value
  | .compound cs => cs.all fun c => ρ.compare v c.operator c.value

/-- The meaning of a comparison. An ordering against a range or a set only means
something on NULL, where it is false. -/
def comparison (v : Option Value) : ComparisonOperator → Operand → Option Bool
  | .eq, operand => some (ρ.member v operand)
  | .neq, operand => some (!ρ.member v operand)
  | op, .literal l => some (order op v (ρ.literal l))
  | _, .valueSet _ | _, .range _ => if v.isNone then some false else none
  | _, _ => none

def hasElement (v : Option Value) : ValueSetElement → Bool
  | .literal (.string s) => has v s
  | .literal .null => v.isNone
  | .range r => ρ.between v r
  | _ => false

/-- The meaning of a string operator, for the operands it accepts. -/
def stringTest (v : Option Value) : StringOperator → Operand → Option Bool
  | .starts, .literal (.string s) => some (textTest (fun t => s.toList <+: t) v)
  | .ends, .literal (.string s) => some (textTest (fun t => s.toList <:+ t) v)
  | .has, .literal (.string s) => some (has v s)
  | .has, .valueSet elements => some (elements.any (ρ.hasElement v))
  | .notHas, .literal (.string s) => some (!has v s)
  | .notHas, .valueSet elements => some (!elements.any (ρ.hasElement v))
  | _, _ => none

def meaning (v : Option Value) : Operator → Operand → Option Bool
  | .comparison op, operand => ρ.comparison v op operand
  | .string op, operand => ρ.stringTest v op operand

end Reading

end AltrStream.Semantics
