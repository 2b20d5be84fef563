import Mathlib.Algebra.Order.Floor.Defs
import Mathlib.Data.List.Basic
import Mathlib.Tactic.IntervalCases

/-! # Python's `datetime.date` and `datetime.datetime`

Dates of the proleptic Gregorian calendar between 0001-01-01 and 9999-12-31,
their ISO texts, and the instants they start at. Only what the query engine
uses is here: `fromisoformat`, `isoformat`, and one day's `timedelta`.
-/
namespace AltrStream.Python

def isLeap (year : ℕ) : Bool := year % 4 = 0 ∧ (year % 100 ≠ 0 ∨ year % 400 = 0)

def daysInMonth (year month : ℕ) : ℕ :=
  if month = 2 then (if isLeap year then 29 else 28)
  else if month = 4 ∨ month = 6 ∨ month = 9 ∨ month = 11 then 30
  else 31

/-- A calendar date. Values outside the calendar cannot be built. -/
structure Date where
  year : ℕ
  month : ℕ
  day : ℕ
  valid : (1 ≤ year ∧ year ≤ 9999) ∧ (1 ≤ month ∧ month ≤ 12) ∧
    (1 ≤ day ∧ day ≤ daysInMonth year month)
  deriving DecidableEq

/-- Microseconds in a day. -/
def dayLength : ℕ := 86400000000

structure DateTime where
  date : Date
  micros : ℕ
  valid : micros < dayLength
  deriving DecidableEq

namespace Date

/-- `datetime.date(year, month, day)`, with the message of its `ValueError`. -/
def new (year month day : ℕ) : Except String Date :=
  if hy : 1 ≤ year ∧ year ≤ 9999 then
    if hm : 1 ≤ month ∧ month ≤ 12 then
      if hd : 1 ≤ day ∧ day ≤ daysInMonth year month then .ok ⟨year, month, day, hy, hm, hd⟩
      else .error "day is out of range for month"
    else .error "month must be in 1..12"
  else .error s!"year {year} is out of range"

def daysBeforeYear (year : ℕ) : ℕ :=
  let y := year - 1
  y * 365 + y / 4 - y / 100 + y / 400

def daysBeforeMonth (year month : ℕ) : ℕ :=
  ((List.range (month - 1)).map fun m => daysInMonth year (m + 1)).sum

def toordinal (d : Date) : ℕ :=
  daysBeforeYear d.year + daysBeforeMonth d.year d.month + d.day

/-- The first instant of the day, in microseconds. -/
def midnight (d : Date) : ℕ := d.toordinal * dayLength

/-- The date one day later; there is none after 9999-12-31. -/
def next? (d : Date) : Option Date :=
  if h : d.day < daysInMonth d.year d.month then
    some ⟨d.year, d.month, d.day + 1, d.valid.1, d.valid.2.1, by omega, h⟩
  else if h : d.month < 12 then
    some ⟨d.year, d.month + 1, 1, d.valid.1, ⟨by omega, by omega⟩, le_rfl, by
      unfold daysInMonth; split_ifs <;> omega⟩
  else if h : d.year < 9999 then
    some ⟨d.year + 1, 1, 1, ⟨by omega, by omega⟩, ⟨by omega, by omega⟩, le_rfl, by
      simp [daysInMonth]⟩
  else none

/-- `@9999-12-31`, the only date without a successor. -/
def last : Date := ⟨9999, 12, 31, by decide, by decide, by decide⟩

private theorem last_next? : last.next? = none := by decide

theorem next?_eq_none (d : Date) : d.next? = none ↔ d = last := by
  obtain ⟨y, m, day, ⟨hy, hy'⟩, ⟨hm, hm'⟩, hd, hd'⟩ := d
  constructor
  · intro h
    unfold next? at h
    split_ifs at h with h₁ h₂ h₃
    have hy9 : y = 9999 := by simp only at h₃; omega
    have hm12 : m = 12 := by simp only at h₂; omega
    subst hy9 hm12
    have h31 : daysInMonth 9999 12 = 31 := by decide
    simp only [h31] at h₁ hd'
    have hday : day = 31 := by omega
    subst hday
    rfl
  · intro h
    rw [h]
    exact last_next?

theorem daysBeforeYear_succ (y : ℕ) (hy : 1 ≤ y) :
    daysBeforeYear (y + 1) = daysBeforeYear y + if isLeap y then 366 else 365 := by
  obtain ⟨k, rfl⟩ : ∃ k, y = k + 1 := ⟨y - 1, by omega⟩
  unfold daysBeforeYear isLeap
  simp only [Nat.add_sub_cancel, Nat.succ_div, Nat.dvd_iff_mod_eq_zero, decide_eq_true_eq]
  split_ifs <;> omega

theorem daysBeforeMonth_succ (y m : ℕ) (hm : 1 ≤ m) :
    daysBeforeMonth y (m + 1) = daysBeforeMonth y m + daysInMonth y m := by
  obtain ⟨k, rfl⟩ : ∃ k, m = k + 1 := ⟨m - 1, by omega⟩
  simp [daysBeforeMonth, List.range_succ]

theorem daysBeforeMonth_december (y : ℕ) :
    daysBeforeMonth y 12 + 31 = if isLeap y then 366 else 365 := by
  by_cases h : isLeap y = true <;> simp [daysBeforeMonth, List.range_succ, daysInMonth, h]

theorem toordinal_next? {d d' : Date} (h : d.next? = some d') :
    d'.toordinal = d.toordinal + 1 := by
  obtain ⟨y, m, day, ⟨hy, hy'⟩, ⟨hm, hm'⟩, hd, hd'⟩ := d
  unfold next? at h
  simp only at h
  split_ifs at h with h₁ h₂ h₃
  · cases h
    simp only [toordinal]
    omega
  · cases h
    simp only [toordinal, daysBeforeMonth_succ y m hm]
    omega
  · cases h
    obtain rfl : m = 12 := by omega
    have h31 : daysInMonth y 12 = 31 := by simp [daysInMonth]
    have hdec := daysBeforeMonth_december y
    have hjan : daysBeforeMonth (y + 1) 1 = 0 := by simp [daysBeforeMonth]
    simp only [toordinal, daysBeforeYear_succ y hy, hjan]
    omega

/-- The day of `d` ends where the next date starts. -/
theorem midnight_next? {d d' : Date} (h : d.next? = some d') :
    d'.midnight = d.midnight + dayLength := by
  rw [midnight, toordinal_next? h, midnight, Nat.succ_mul]

end Date

/-- The `i`-th decimal digit, units first. -/
def digitAt (n i : ℕ) : Char := Char.ofNat (48 + n / 10 ^ i % 10)

/-- `f"{n:0{width}d}"` for a number of at most `width` digits. -/
def zeroPad (width n : ℕ) : List Char := ((List.range width).map (digitAt n)).reverse

/-- The value of an ASCII digit. -/
def asciiDigit? (c : Char) : Option ℕ :=
  if '0'.toNat ≤ c.toNat ∧ c.toNat ≤ '9'.toNat then some (c.toNat - '0'.toNat) else none

def asciiNumber? (cs : List Char) : Option ℕ :=
  cs.foldl (fun acc c => do return 10 * (← acc) + (← asciiDigit? c)) (some 0)

private theorem asciiDigit?_digitAt (n i : ℕ) : asciiDigit? (digitAt n i) = some (n / 10 ^ i % 10) := by
  have hall : ∀ d, d < 10 → asciiDigit? (Char.ofNat (48 + d)) = some d := by decide
  exact hall _ (Nat.mod_lt _ (by norm_num))

private theorem asciiNumber?_two (n : ℕ) (h : n < 100) : asciiNumber? (zeroPad 2 n) = some n := by
  simp only [zeroPad, asciiNumber?, List.range_succ, List.range_zero, List.nil_append,
    List.map_cons, List.map_nil, List.reverse_cons, List.reverse_nil, List.cons_append, List.foldl_cons, List.foldl_nil, asciiDigit?_digitAt]
  simp only [Option.bind_eq_bind, Option.bind_some, Option.pure_def, Option.some.injEq]
  omega

private theorem asciiNumber?_four (n : ℕ) (h : n < 10000) :
    asciiNumber? (zeroPad 4 n) = some n := by
  simp only [zeroPad, asciiNumber?, List.range_succ, List.range_zero, List.nil_append,
    List.map_cons, List.map_nil, List.reverse_cons, List.reverse_nil, List.cons_append, List.foldl_cons, List.foldl_nil, asciiDigit?_digitAt]
  simp only [Option.bind_eq_bind, Option.bind_some, Option.pure_def, Option.some.injEq]
  omega

namespace Date

def isoChars (d : Date) : List Char :=
  zeroPad 4 d.year ++ '-' :: (zeroPad 2 d.month ++ '-' :: zeroPad 2 d.day)

def isoformat (d : Date) : String := String.ofList d.isoChars

/-- `date.fromisoformat` on a text of the shape `YYYY-MM-DD`. -/
def fromisoformat (s : List Char) : Except String Date :=
  let invalid := Except.error s!"Invalid isoformat string: '{String.ofList s}'"
  match s with
  | [y₁, y₂, y₃, y₄, '-', m₁, m₂, '-', d₁, d₂] =>
    match asciiNumber? [y₁, y₂, y₃, y₄], asciiNumber? [m₁, m₂], asciiNumber? [d₁, d₂] with
    | some year, some month, some day => new year month day
    | _, _, _ => invalid
  | _ => invalid

theorem new_self (d : Date) : new d.year d.month d.day = .ok d := by
  unfold new
  rw [dif_pos d.valid.1, dif_pos d.valid.2.1, dif_pos d.valid.2.2]

theorem fromisoformat_isoChars (d : Date) : fromisoformat d.isoChars = .ok d := by
  have hyear := asciiNumber?_four d.year (by have := d.valid.1.2; omega)
  have hmonth := asciiNumber?_two d.month (by have := d.valid.2.1.2; omega)
  have hday := asciiNumber?_two d.day (by
    have h := d.valid.2.2.2
    have : daysInMonth d.year d.month ≤ 31 := by unfold daysInMonth; split_ifs <;> omega
    omega)
  change (match asciiNumber? (zeroPad 4 d.year), asciiNumber? (zeroPad 2 d.month),
    asciiNumber? (zeroPad 2 d.day) with
    | some year, some month, some day => new year month day
    | _, _, _ => _) = _
  rw [hyear, hmonth, hday]
  exact d.new_self

end Date

namespace DateTime

/-- The start of the day, `datetime(d.year, d.month, d.day, 0, 0, 0)`. -/
def ofDate (d : Date) : DateTime := ⟨d, 0, by decide⟩

/-- `dt + timedelta(days=1)`; `none` is Python's `OverflowError`. -/
def addDay? (t : DateTime) : Option DateTime := t.date.next?.map fun d => ⟨d, t.micros, t.valid⟩

def instant (t : DateTime) : ℕ := t.date.midnight + t.micros

def isoChars (t : DateTime) : List Char :=
  let seconds := t.micros / 1000000
  let fraction := t.micros % 1000000
  t.date.isoChars ++ 'T' :: (zeroPad 2 (seconds / 3600) ++ ':' :: (zeroPad 2 (seconds / 60 % 60) ++
    ':' :: (zeroPad 2 (seconds % 60) ++ if fraction = 0 then [] else '.' :: zeroPad 6 fraction)))

def isoformat (t : DateTime) : String := String.ofList t.isoChars

@[simp] theorem instant_ofDate (d : Date) : (ofDate d).instant = d.midnight := Nat.add_zero _

/-- The end of a day is the start of the next date. -/
theorem addDay?_ofDate (d : Date) : (ofDate d).addDay? = d.next?.map ofDate := rfl

theorem addDay?_eq_none (d : Date) : (ofDate d).addDay? = none ↔ d = Date.last := by
  simp [addDay?_ofDate, Date.next?_eq_none]

end DateTime

end AltrStream.Python
