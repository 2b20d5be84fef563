import Mathlib.Data.List.Infix

/-! # Regular expressions of literal characters and anchors

The patterns without repetition, classes or groups: literal characters, escaped
characters, `^` and `$`. Without options `^` holds at the start of the text only,
and `$` at its end and before a final newline. A pattern is searched at every
position of the text.
-/
namespace AltrStream.Foundations.Regex

inductive Piece where
  | char (c : Char)
  /-- `^` -/
  | start
  /-- `$` -/
  | stop
  deriving DecidableEq

/-- The characters that do not stand for themselves. -/
def metaChars : List Char := ['\\', '^', '$', '.', '[', '|', '(', ')', '?', '*', '+', '\x7b']

/-- The pieces of a pattern of this kind. -/
def parse : List Char → Option (List Piece)
  | [] => some []
  | '\\' :: c :: rest => if c.isAlphanum then none else (parse rest).map (.char c :: ·)
  | '^' :: rest => (parse rest).map (.start :: ·)
  | '$' :: rest => (parse rest).map (.stop :: ·)
  | c :: rest => if c ∈ metaChars then none else (parse rest).map (.char c :: ·)

/-- Match at the current position, which is the start of the text or not. -/
def matchHere : List Piece → Bool → List Char → Bool
  | [], _, _ => true
  | .char c :: ps, _, s =>
    match s with
    | [] => false
    | d :: s => c == d && matchHere ps false s
  | .start :: ps, first, s => first && matchHere ps first s
  | .stop :: ps, first, s => (s == [] || s == ['\n']) && matchHere ps first s

def searchFrom (ps : List Piece) : Bool → List Char → Bool
  | first, [] => matchHere ps first []
  | first, c :: s => matchHere ps first (c :: s) || searchFrom ps false s

/-- Whether the pattern matches somewhere in the text. -/
def search (pattern text : String) : Bool :=
  (parse pattern.toList).any fun ps => searchFrom ps true text.toList

/-! ### Literal texts -/

theorem matchHere_literal (t : List Char) (ps : List Piece) (first : Bool) (s : List Char) :
    matchHere (t.map .char ++ ps) first s = true ↔
      ∃ r, s = t ++ r ∧ matchHere ps (first && t.isEmpty) r = true := by
  induction t generalizing first s with
  | nil => simp
  | cons c t ih =>
    cases s with
    | nil => simp [matchHere]
    | cons d s =>
      simp only [List.map_cons, List.cons_append, matchHere, Bool.and_eq_true, beq_iff_eq, ih,
        Bool.false_and, List.isEmpty_cons, Bool.and_false, List.cons.injEq]
      constructor
      · rintro ⟨rfl, r, rfl, h⟩
        exact ⟨r, ⟨rfl, rfl⟩, h⟩
      · rintro ⟨r, ⟨rfl, rfl⟩, h⟩
        exact ⟨rfl, r, rfl, h⟩

/-- A search tries every position, of which only the first can be the start of the text. -/
theorem searchFrom_iff (ps : List Piece) (first : Bool) (s : List Char) :
    searchFrom ps first s = true ↔
      ∃ u r, s = u ++ r ∧ matchHere ps (first && u.isEmpty) r = true := by
  induction s generalizing first with
  | nil =>
    constructor
    · intro h
      exact ⟨[], [], rfl, by simpa [searchFrom] using h⟩
    · rintro ⟨u, r, hs, h⟩
      obtain ⟨rfl, rfl⟩ := List.append_eq_nil_iff.1 hs.symm
      simpa [searchFrom] using h
  | cons c s ih =>
    rw [searchFrom, Bool.or_eq_true, ih]
    constructor
    · rintro (h | ⟨u, r, rfl, h⟩)
      · exact ⟨[], c :: s, rfl, by simpa using h⟩
      · exact ⟨c :: u, r, rfl, by simpa using h⟩
    · rintro ⟨u, r, hs, h⟩
      cases u with
      | nil =>
        left
        obtain rfl : c :: s = r := hs
        simpa using h
      | cons d u =>
        right
        obtain ⟨rfl, rfl⟩ := List.cons.inj hs
        exact ⟨u, r, rfl, by simpa using h⟩

theorem matchHere_nil (first : Bool) (s : List Char) : matchHere [] first s = true := by
  cases s <;> rfl

theorem matchHere_stop (first : Bool) (s : List Char) :
    matchHere [.stop] first s = true ↔ s = [] ∨ s = ['\n'] := by
  simp [matchHere]

theorem search_literal (t s : List Char) :
    searchFrom (t.map .char) true s = true ↔ t <:+: s := by
  rw [searchFrom_iff, ← List.append_nil (t.map Piece.char)]
  simp only [matchHere_literal, matchHere_nil, and_true]
  constructor
  · rintro ⟨u, _, rfl, r, rfl⟩
    exact ⟨u, r, by simp⟩
  · rintro ⟨u, r, rfl⟩
    exact ⟨u, t ++ r, by simp, r, rfl⟩

theorem search_start (t s : List Char) :
    searchFrom (.start :: t.map .char) true s = true ↔ t <+: s := by
  have hhere : ∀ (first : Bool) (r : List Char), matchHere (.start :: t.map .char) first r = true ↔
      first = true ∧ ∃ r', r = t ++ r' := by
    intro first r
    rw [matchHere, Bool.and_eq_true, ← List.append_nil (t.map Piece.char)]
    simp only [matchHere_literal, matchHere_nil, and_true]
  rw [searchFrom_iff]
  simp only [hhere]
  constructor
  · rintro ⟨u, _, rfl, hfirst, r, rfl⟩
    obtain rfl : u = [] := by simpa using hfirst
    exact List.prefix_append t r
  · rintro ⟨r, rfl⟩
    exact ⟨[], t ++ r, rfl, rfl, r, rfl⟩

/-- `$` also lets one newline follow. -/
theorem search_stop (t s : List Char) :
    searchFrom (t.map .char ++ [.stop]) true s = true ↔ t <:+ s ∨ t ++ ['\n'] <:+ s := by
  rw [searchFrom_iff]
  simp only [matchHere_literal, matchHere_stop]
  constructor
  · rintro ⟨u, _, rfl, r, rfl, rfl | rfl⟩
    · exact .inl ⟨u, by simp⟩
    · exact .inr ⟨u, rfl⟩
  · rintro (⟨u, rfl⟩ | ⟨u, rfl⟩)
    · exact ⟨u, t, rfl, [], by simp, .inl rfl⟩
    · exact ⟨u, t ++ ['\n'], rfl, ['\n'], rfl, .inr rfl⟩

/-! ### Escaping -/

/-- Put a backslash before the characters of a list. -/
def escape (special : List Char) (s : List Char) : List Char :=
  s.flatMap fun c => if c ∈ special then ['\\', c] else [c]

variable {special : List Char}

/-- Escaping makes every character literal, if it escapes enough and no letter or digit. -/
theorem parse_escape (hmeta : ∀ c ∈ metaChars, c ∈ special)
    (hplain : ∀ c ∈ special, c.isAlphanum = false) (s rest : List Char) :
    parse (escape special s ++ rest) = (parse rest).map (s.map .char ++ ·) := by
  induction s with
  | nil => simp [escape]
  | cons c s ih =>
    have hcons : escape special (c :: s) ++ rest =
        (if c ∈ special then ['\\', c] else [c]) ++ (escape special s ++ rest) := by simp [escape]
    have hmap : (parse rest).map ((c :: s).map .char ++ ·) =
        (parse (escape special s ++ rest)).map (.char c :: ·) := by
      rw [ih, Option.map_map]
      rfl
    rw [hcons, hmap]
    by_cases hc : c ∈ special
    · rw [if_pos hc]
      change (if c.isAlphanum then none else _) = _
      rw [hplain c hc]
      rfl
    · have hnot : c ∉ metaChars := fun h => hc (hmeta c h)
      rw [if_neg hc, List.singleton_append, parse, if_neg hnot]
      all_goals
        intros
        subst_vars
        exact hnot (by decide)

end AltrStream.Foundations.Regex
