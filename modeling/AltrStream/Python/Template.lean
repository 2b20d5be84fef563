import Mathlib.Data.String.Basic
import AltrStream.Python.Calendar

/-! # Replacement templates of `re.sub`

A backslash in the text that `re.sub` inserts starts an escape or refers to a group
of the pattern; some uses of it raise an error.
-/
namespace AltrStream.Python.Template

/-- A character of the replacement, or the text of a group. -/
inductive Piece where
  | char (c : Char)
  | group (index : ℕ)
  deriving DecidableEq, Repr

def octalDigit? (c : Char) : Option ℕ := (asciiDigit? c).filter (· < 8)

/-- `ESCAPES` -/
def escaped? : Char → Option Char
  | 'a' => some '\x07'
  | 'b' => some '\x08'
  | 'f' => some '\x0c'
  | 'n' => some '\n'
  | 'r' => some '\r'
  | 't' => some '\t'
  | 'v' => some '\x0b'
  | '\\' => some '\\'
  | _ => none

/-- A reference to a group that the pattern has. -/
def groupPiece (groups index : ℕ) : Option (List Piece) :=
  if index ≤ groups then some [.group index] else none

/-- `\g<index>`; the patterns here have no names. -/
def namedGroup (groups : ℕ) (rest : List Char) : Option (List Piece × List Char) :=
  match rest with
  | '<' :: rest =>
    let name := rest.takeWhile (· ≠ '>')
    match rest.drop name.length, asciiNumber? name with
    | '>' :: rest, some index => if name = [] then none else (groupPiece groups index).map (·, rest)
    | _, _ => none
  | _ => none

/-- `\d`, `\dd` for a group, or three octal digits for a character. -/
def numbered (groups d : ℕ) (rest : List Char) : Option (List Piece × List Char) :=
  match rest with
  | c₂ :: rest' =>
    match asciiDigit? c₂ with
    | none => (groupPiece groups d).map (·, rest)
    | some d₂ =>
      match rest' with
      | c₃ :: rest'' =>
        match octalDigit? c₃ with
        | some d₃ =>
          if d < 8 ∧ d₂ < 8 then
            let code := 64 * d + 8 * d₂ + d₃
            if code ≤ 255 then some ([.char (Char.ofNat code)], rest'') else none
          else (groupPiece groups (10 * d + d₂)).map (·, rest')
        | none => (groupPiece groups (10 * d + d₂)).map (·, rest')
      | [] => (groupPiece groups (10 * d + d₂)).map (·, rest')
  | [] => (groupPiece groups d).map (·, rest)

/-- `\0` and at most two more octal digits. -/
def octal (rest : List Char) : List Piece × List Char :=
  match rest with
  | c₁ :: rest₁ =>
    match octalDigit? c₁ with
    | none => ([.char '\x00'], rest)
    | some d₁ =>
      match rest₁ with
      | c₂ :: rest₂ =>
        match octalDigit? c₂ with
        | none => ([.char (Char.ofNat d₁)], rest₁)
        | some d₂ => ([.char (Char.ofNat (8 * d₁ + d₂))], rest₂)
      | [] => ([.char (Char.ofNat d₁)], rest₁)
  | [] => ([.char '\x00'], rest)

/-- What follows a backslash. -/
def afterBackslash (groups : ℕ) : List Char → Option (List Piece × List Char)
  | [] => none
  | 'g' :: rest => namedGroup groups rest
  | '0' :: rest => some (octal rest)
  | c :: rest =>
    match asciiDigit? c, escaped? c with
    | some d, _ => numbered groups d rest
    | none, some e => some ([.char e], rest)
    | none, none => if c.isAlpha then none else some ([.char '\\', .char c], rest)

def parseFuel (groups : ℕ) : ℕ → List Char → Option (List Piece)
  | _, [] => some []
  | 0, _ => none
  | fuel + 1, '\\' :: rest => do
    let (pieces, rest) ← afterBackslash groups rest
    return pieces ++ (← parseFuel groups fuel rest)
  | fuel + 1, c :: rest => (parseFuel groups fuel rest).map (.char c :: ·)

/-- The pieces of a template for a pattern with that many groups; `none` is an error. Every step
reads a character. -/
def parse (groups : ℕ) (template : List Char) : Option (List Piece) :=
  parseFuel groups template.length template

/-- The replacement of a match; a group that takes no part in the match is empty. -/
def expand (groups : List (List Char)) (pieces : List Piece) : List Char :=
  pieces.flatMap fun
    | .char c => [c]
    | .group i => groups.getD i []

/-- A text without backslashes stands for itself. -/
theorem parseFuel_plain {groups fuel : ℕ} {plain : List Char} (h : '\\' ∉ plain)
    (hfuel : plain.length ≤ fuel) : parseFuel groups fuel plain = some (plain.map .char) := by
  induction plain generalizing fuel with
  | nil => cases fuel <;> rfl
  | cons c plain ih =>
    rw [List.mem_cons, not_or] at h
    obtain ⟨fuel, rfl⟩ := Nat.exists_eq_succ_of_ne_zero (Nat.ne_zero_of_lt hfuel)
    have hstep : parseFuel groups (fuel + 1) (c :: plain) =
        (parseFuel groups fuel plain).map (.char c :: ·) := by
      rw [parseFuel]
      exact fun hc => h.1 hc.symm
    rw [hstep, ih h.2 (Nat.le_of_succ_le_succ hfuel)]
    rfl

theorem parse_plain {plain : List Char} (h : '\\' ∉ plain) (groups : ℕ) :
    parse groups plain = some (plain.map .char) := parseFuel_plain h le_rfl

/-- A reference to the first group, and a text that starts with no digit behind it. -/
theorem parse_first_group {groups : ℕ} {c : Char} {plain : List Char} (hgroups : 1 ≤ groups)
    (hc : asciiDigit? c = none) (h : '\\' ∉ c :: plain) :
    parse groups ('\\' :: '1' :: c :: plain) = some (.group 1 :: (c :: plain).map .char) := by
  have hafter : afterBackslash groups ('1' :: c :: plain) = some ([.group 1], c :: plain) := by
    have hnumbered : numbered groups 1 (c :: plain) = some ([.group 1], c :: plain) := by
      rw [numbered, hc]
      simp [groupPiece, hgroups]
    rw [← hnumbered]
    rfl
  rw [parse, List.length_cons, parseFuel, hafter]
  change (parseFuel groups _ (c :: plain)).bind _ = _
  rw [parseFuel_plain h (by simp)]
  rfl

theorem expand_plain (groups : List (List Char)) (plain : List Char) :
    expand groups (plain.map .char) = plain := by
  induction plain with
  | nil => rfl
  | cons c plain ih => exact congrArg (c :: ·) ih

example : (parse 0 "a\\n\\x".toList, parse 1 "\\1-\\g<0>".toList) =
    (none, some [.group 1, .char '-', .group 0]) := by decide

end AltrStream.Python.Template
