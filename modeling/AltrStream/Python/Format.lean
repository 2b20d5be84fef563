import AltrStream.Foundations.Checks
import AltrStream.Python.Calendar
import Mathlib.Data.List.TakeWhile

/-! # Python's `%` operator

`text % args` for a tuple of texts. Every `%` starts a conversion, which takes the
next argument unless it is `%%`; `%(key)` wants a mapping, `*` an integer, and all
arguments have to be taken.
-/
namespace AltrStream.Python
open Foundations

inductive FormatError where
  /-- `format requires a mapping` -/
  | requiresMapping
  /-- `* wants int` -/
  | starWantsInt
  /-- `width too big`, `precision too big` -/
  | tooBig
  /-- `incomplete format` -/
  | incomplete
  /-- `unsupported format character` -/
  | unsupportedCharacter
  /-- `%d format: a number is required, not str` -/
  | numberRequired
  /-- `%c requires int or char` -/
  | charRequired
  /-- `not enough arguments for format string` -/
  | notEnoughArguments
  /-- `not all arguments converted during string formatting` -/
  | notAllConverted
  deriving DecidableEq, Repr

namespace Format

/-- `repr(s)` and `ascii(s)`. -/
structure Printer where
  repr : List Char → List Char
  ascii : List Char → List Char

/-- A conversion specifier behind its `%`. -/
structure Spec where
  left : Bool
  width : ℕ
  precision : Option ℕ
  type : Char
  deriving DecidableEq, Repr

def flagChars : List Char := ['-', '+', ' ', '#', '0']

/-- A width or a precision, up to a limit. -/
def readNumber (limit : ℕ) (text : List Char) : Except FormatError (ℕ × List Char) :=
  if text.head? = some '*' then .error .starWantsInt
  else
    let digits := text.takeWhile Char.isDigit
    let n := (asciiNumber? digits).getD 0
    if limit < n then .error .tooBig else .ok (n, text.dropWhile Char.isDigit)

def readPrecision : List Char → Except FormatError (Option ℕ × List Char)
  | '.' :: text => do
    let (n, text) ← readNumber (2 ^ 31 - 1) text
    return (some n, text)
  | text => .ok (none, text)

/-- A length modifier is read over. -/
def dropLength : List Char → List Char
  | 'h' :: text | 'l' :: text | 'L' :: text => text
  | text => text

/-- The specifier that follows a `%`, and the text behind it. -/
def parseSpec (text : List Char) : Except FormatError (Spec × List Char) :=
  if text.head? = some '(' then .error .requiresMapping
  else do
    let left := '-' ∈ text.takeWhile (· ∈ flagChars)
    let (width, text) ← readNumber (2 ^ 63 - 1) (text.dropWhile (· ∈ flagChars))
    let (precision, text) ← readPrecision text
    match dropLength text with
    | [] => .error .incomplete
    | type :: rest => return (⟨left, width, precision, type⟩, rest)

namespace Spec
variable (spec : Spec)

def pad (s : List Char) : List Char :=
  let blanks := List.replicate (spec.width - s.length) ' '
  if spec.left then s ++ blanks else blanks ++ s

def cut (s : List Char) : List Char := spec.precision.elim s s.take

/-- The text of an argument that is a text. -/
def convert (printer : Printer) (arg : List Char) : Except FormatError (List Char) :=
  if spec.type = 's' then .ok (spec.pad (spec.cut arg))
  else if spec.type = 'r' then .ok (spec.pad (spec.cut (printer.repr arg)))
  else if spec.type = 'a' then .ok (spec.pad (spec.cut (printer.ascii arg)))
  else if spec.type = 'c' then if arg.length = 1 then .ok (spec.pad arg) else .error .charRequired
  else if spec.type ∈ "diuoxXeEfFgG".toList then .error .numberRequired
  else .error .unsupportedCharacter

end Spec

/-- The loop over the text; every turn reads a character. -/
def formatFuel (printer : Printer) :
    ℕ → List Char → List (List Char) → Except FormatError (List Char)
  | _, [], [] => .ok []
  | _, [], _ :: _ => .error .notAllConverted
  | 0, _ :: _, _ => .error .incomplete
  | fuel + 1, c :: text, args =>
    if c = '%' then do
      let (spec, rest) ← parseSpec text
      if spec.type = '%' then return '%' :: (← formatFuel printer fuel rest args)
      match args with
      | [] => .error .notEnoughArguments
      | arg :: args => return (← spec.convert printer arg) ++ (← formatFuel printer fuel rest args)
    else return c :: (← formatFuel printer fuel text args)

/-- `text % args` -/
def format (printer : Printer) (text : List Char) (args : List (List Char)) :
    Except FormatError (List Char) :=
  formatFuel printer text.length text args

/-! ### What a specifier reads -/

/-- A character that may stand between the `%` and the type of a conversion. -/
def isSpecChar (c : Char) : Bool := c ∈ flagChars || c.isDigit || c ∈ ['.', 'h', 'l', 'L']

theorem readNumber_eq_ok {limit n : ℕ} {text rest : List Char}
    (h : readNumber limit text = .ok (n, rest)) :
    ∃ digits, text = digits ++ rest ∧ ∀ c ∈ digits, isSpecChar c = true := by
  unfold readNumber at h
  dsimp only at h
  split at h
  · cases h
  · split at h
    · cases h
    · cases h
      refine ⟨text.takeWhile Char.isDigit, List.takeWhile_append_dropWhile.symm, fun c hc => ?_⟩
      simp [isSpecChar, List.mem_takeWhile_imp hc]

theorem readPrecision_eq_ok {precision : Option ℕ} {text rest : List Char}
    (h : readPrecision text = .ok (precision, rest)) :
    ∃ used, text = used ++ rest ∧ ∀ c ∈ used, isSpecChar c = true := by
  unfold readPrecision at h
  split at h
  · obtain ⟨⟨n, text'⟩, hn, h⟩ := bind_eq_ok.1 h
    cases h
    obtain ⟨digits, rfl, hdigits⟩ := readNumber_eq_ok hn
    exact ⟨'.' :: digits, rfl, List.forall_mem_cons.2 ⟨by decide, hdigits⟩⟩
  · cases h
    exact ⟨[], rfl, by simp⟩

theorem dropLength_eq (text : List Char) :
    ∃ used, text = used ++ dropLength text ∧ ∀ c ∈ used, isSpecChar c = true := by
  unfold dropLength
  split
  · exact ⟨['h'], rfl, by decide⟩
  · exact ⟨['l'], rfl, by decide⟩
  · exact ⟨['L'], rfl, by decide⟩
  · exact ⟨[], rfl, by simp⟩

/-- A specifier ends with its type. -/
theorem parseSpec_eq_ok {spec : Spec} {text rest : List Char} (h : parseSpec text = .ok (spec, rest)) :
    ∃ used, text = used ++ spec.type :: rest ∧ ∀ c ∈ used, isSpecChar c = true := by
  unfold parseSpec at h
  split at h
  · cases h
  · obtain ⟨⟨width, text₁⟩, hwidth, h⟩ := bind_eq_ok.1 h
    obtain ⟨⟨precision, text₂⟩, hprecision, h⟩ := bind_eq_ok.1 h
    dsimp only at h
    obtain ⟨digits, htext₁, hdigits⟩ := readNumber_eq_ok hwidth
    obtain ⟨decimals, htext₂, hdecimals⟩ := readPrecision_eq_ok hprecision
    obtain ⟨modifier, htext₃, hmodifier⟩ := dropLength_eq text₂
    split at h
    · cases h
    · next type rest' htype =>
      cases h
      refine ⟨text.takeWhile (· ∈ flagChars) ++ digits ++ decimals ++ modifier, ?_, ?_⟩
      · rw [List.append_assoc, ← htype, ← htext₃, List.append_assoc, ← htext₂, List.append_assoc,
          ← htext₁, List.takeWhile_append_dropWhile]
      · simp only [List.forall_mem_append]
        refine ⟨⟨⟨fun c hc => ?_, hdigits⟩, hdecimals⟩, hmodifier⟩
        have hkept := List.mem_takeWhile_imp hc
        have hflag : c ∈ flagChars := of_decide_eq_true hkept
        rw [isSpecChar, decide_eq_true hflag, Bool.true_or, Bool.true_or]

theorem parseSpec_s (rest : List Char) :
    parseSpec ('s' :: rest) = .ok (⟨false, 0, none, 's'⟩, rest) := rfl

/-- Texts are printed with four types. -/
theorem Spec.type_of_convert {spec : Spec} {printer : Printer} {arg s : List Char}
    (h : spec.convert printer arg = .ok s) : spec.type ∈ ['s', 'r', 'a', 'c'] := by
  unfold Spec.convert at h
  split_ifs at h <;> simp_all

/-- `%s` inserts the text itself. -/
theorem Spec.convert_plain (printer : Printer) (arg : List Char) :
    (⟨false, 0, none, 's'⟩ : Spec).convert printer arg = .ok arg := by
  simp [convert, pad, cut]

/-! ### Texts without arguments -/

/-- Without arguments a conversion can only be `%%` or fail, and `%%` loses a character. -/
theorem length_formatFuel_nil {printer : Printer} {fuel : ℕ} {text result : List Char}
    (h : formatFuel printer fuel text [] = .ok result) :
    result.length ≤ text.length ∧ ('%' ∈ text → result.length < text.length) := by
  induction fuel generalizing text result with
  | zero =>
    cases text with
    | nil => cases h; simp
    | cons c text => cases h
  | succ fuel ih =>
    cases text with
    | nil => cases h; simp
    | cons c text =>
      rw [formatFuel] at h
      split at h
      · obtain ⟨⟨spec, rest⟩, hspec, hturn⟩ := bind_eq_ok.1 h
        obtain ⟨used, htext, -⟩ := parseSpec_eq_ok hspec
        dsimp only at hturn
        split at hturn
        · obtain ⟨result', hresult, hturn⟩ := bind_eq_ok.1 hturn
          cases hturn
          have hlength := (ih hresult).1
          simp only [htext, List.length_cons, List.length_append]
          omega
        · cases hturn
      · next hc =>
        obtain ⟨result', hresult, h⟩ := bind_eq_ok.1 h
        cases h
        obtain ⟨hle, hlt⟩ := ih hresult
        refine ⟨Nat.succ_le_succ hle, fun hmem => Nat.succ_lt_succ (hlt ?_)⟩
        exact (List.mem_cons.1 hmem).resolve_left fun heq => hc heq.symm

theorem formatFuel_plain {printer : Printer} {fuel : ℕ} {text : List Char} (hfuel : text.length ≤ fuel)
    (h : '%' ∉ text) : formatFuel printer fuel text [] = .ok text := by
  induction text generalizing fuel with
  | nil => cases fuel <;> rfl
  | cons c text ih =>
    obtain ⟨fuel, rfl⟩ := Nat.exists_eq_succ_of_ne_zero (Nat.ne_zero_of_lt hfuel)
    rw [List.mem_cons, not_or] at h
    rw [formatFuel, if_neg (Ne.symm h.1), ih (Nat.le_of_succ_le_succ hfuel) h.2]
    rfl

/-- Without arguments the operator keeps a text just when it has no `%`. -/
theorem format_nil_iff {printer : Printer} {text : List Char} :
    format printer text [] = .ok text ↔ '%' ∉ text := by
  constructor
  · exact fun h hmem => Nat.lt_irrefl _ ((length_formatFuel_nil h).2 hmem)
  · exact formatFuel_plain le_rfl

end Format

end AltrStream.Python
