import AltrStream.Foundations.Lines
import Mathlib.Algebra.Ring.Int.Defs

/-! # Strings and integers in Go

The functions of `strings` and `strconv` that the installer uses. Strings are texts;
`int` has 64 bits.
-/
namespace AltrStream.Go
open Foundations

abbrev Text := List Char

/-- A value of type `int`. -/
abbrev GoInt := { n : ℤ // -2 ^ 63 ≤ n ∧ n < 2 ^ 63 }

/-- `unicode.IsSpace` -/
def isSpace (c : Char) : Bool :=
  let n := c.toNat
  (9 ≤ n && n ≤ 13) || n = 32 || n = 0x85 || n = 0xA0 || n = 0x1680 ||
    (0x2000 ≤ n && n ≤ 0x200A) || n = 0x2028 || n = 0x2029 || n = 0x202F || n = 0x205F || n = 0x3000

/-- `strings.TrimSpace` -/
def trimSpace (s : Text) : Text := (s.dropWhile isSpace).rdropWhile isSpace

/-- `strings.Trim` with quotes. -/
def trimQuotes (s : Text) : Text :=
  (s.dropWhile fun c => c = '"' || c = '\'').rdropWhile fun c => c = '"' || c = '\''

/-- `strings.TrimPrefix` -/
def trimPrefix (s p : Text) : Text := (s.dropPrefix? p).getD s

/-- `strings.TrimSuffix` -/
def trimSuffix (s suffix : Text) : Text := (trimPrefix s.reverse suffix.reverse).reverse

def hasPrefix (s p : Text) : Bool := p.isPrefixOf s

def hasSuffix (s suffix : Text) : Bool := suffix.isSuffixOf s

/-- `strings.Contains` -/
def contains (s word : Text) : Bool := word <:+: s

/-- `strings.Split(s, "\n")` -/
def lines (s : Text) : List Text := s.splitOn '\n'

/-- `strings.Join(parts, "\n")` -/
def joinLines (parts : List Text) : Text := ['\n'].intercalate parts

/-- `%d` -/
def itoa (n : ℤ) : Text := if n < 0 then '-' :: Nat.toDigits 10 n.natAbs else Nat.toDigits 10 n.natAbs

/-- `strconv.Atoi` -/
def atoi (s : Text) : Option ℤ :=
  let (negative, digits) := match s with
    | '-' :: rest => (true, rest)
    | '+' :: rest => (false, rest)
    | _ => (false, s)
  if digits.isEmpty || !digits.all Char.isDigit then none
  else
    let n : ℤ := Nat.ofDigitChars 10 digits 0
    let value := if negative then -n else n
    if -2 ^ 63 ≤ value ∧ value < 2 ^ 63 then some value else none

theorem atoi_itoa (n : GoInt) (hpos : 0 < n.1) : atoi (itoa n.1) = some n.1 := by
  obtain ⟨n, hlow, hhigh⟩ := n
  have hneg : ¬ n < 0 := not_lt.2 hpos.le
  have hdigit : ∀ c ∈ Nat.toDigits 10 n.natAbs, c.isDigit = true := fun c hc =>
    Nat.isDigit_of_mem_toDigits (by decide) (by decide) hc
  obtain ⟨c, rest, hcons⟩ := List.exists_cons_of_ne_nil (Nat.toDigits_ne_nil (b := 10) (n := n.natAbs))
  have hc : c.isDigit = true := hdigit c (hcons ▸ List.mem_cons_self)
  have hsign : c ≠ '-' ∧ c ≠ '+' := ⟨fun h => by subst h; simp at hc, fun h => by subst h; simp at hc⟩
  have hvalue : ((Nat.ofDigitChars 10 (c :: rest) 0 : ℕ) : ℤ) = n := by
    rw [← hcons, Nat.ofDigitChars_ten_toDigits]
    omega
  have hall : (c :: rest).all Char.isDigit = true := List.all_eq_true.2 (hcons ▸ hdigit)
  simp only [itoa, if_neg hneg, atoi, hcons]
  split
  · rename_i hmatch
    exact absurd (List.cons.inj hmatch).1 hsign.1
  · rename_i hmatch
    exact absurd (List.cons.inj hmatch).1 hsign.2
  · simp only [hall, hvalue]
    simp
    omega

example : (atoi "+8080".toList, atoi "80_80".toList, itoa 8000) =
    (some 8080, none, "8000".toList) := by decide

theorem hasPrefix_iff {s p : Text} : hasPrefix s p = true ↔ p <+: s := List.isPrefixOf_iff_prefix

/-! ### Trimming -/

/-- A text without the characters that are trimmed. -/
theorem trim_of_forall {p : Char → Bool} {s : Text} (h : ∀ c ∈ s, p c = false) :
    (s.dropWhile p).rdropWhile p = s := by
  have hdrop : s.dropWhile p = s := by
    cases s with
    | nil => rfl
    | cons c s => exact List.dropWhile_cons_of_neg (by simp [h c List.mem_cons_self])
  rw [hdrop, List.rdropWhile_eq_self_iff]
  intro hne
  simp [h _ (List.getLast_mem hne)]

theorem trimSpace_of_forall {s : Text} (h : ∀ c ∈ s, isSpace c = false) : trimSpace s = s :=
  trim_of_forall h

theorem trimQuotes_of_forall {s : Text} (h : ∀ c ∈ s, c ≠ '"' ∧ c ≠ '\'') : trimQuotes s = s :=
  trim_of_forall fun c hc => by simp [h c hc]

theorem isPrefix_trimSpace (s : Text) : trimSpace s <+: s.dropWhile isSpace := List.rdropWhile_prefix _ _

theorem trimSpace_ne_nil {s : Text} {c : Char} (hmem : c ∈ s) (hc : isSpace c = false) :
    trimSpace s ≠ [] := by
  intro h
  rw [trimSpace, List.rdropWhile_eq_nil_iff] at h
  have hall : ∀ x ∈ s, isSpace x = true := by
    rw [← List.takeWhile_append_dropWhile (p := isSpace) (l := s)]
    exact List.forall_mem_append.2 ⟨fun x hx => List.mem_takeWhile_imp hx, h⟩
  rw [hall c hmem] at hc
  cases hc

/-- The characters of a literal, which need not be decoded to be looked at. -/
theorem forall_mem_literal {p : Char → Prop} {l : List Char} (h : ∀ c ∈ l, p c) :
    ∀ c ∈ (String.ofList l).toList, p c := by rwa [String.toList_ofList]

theorem not_mem_literal {c : Char} {l : List Char} (h : c ∉ l) : c ∉ (String.ofList l).toList := by
  rwa [String.toList_ofList]

/-- Leading spaces are cut off. -/
theorem trimSpace_append {indent s : Text} (h : ∀ c ∈ indent, isSpace c = true) :
    trimSpace (indent ++ s) = trimSpace s := by
  rw [trimSpace, trimSpace, List.dropWhile_append_of_pos h]

/-- A text between two characters that are no spaces. -/
theorem trimSpace_cons_concat {a b : Char} {s : Text} (ha : isSpace a = false) (hb : isSpace b = false) :
    trimSpace (a :: s ++ [b]) = a :: s ++ [b] := by
  have hhead : (a :: s ++ [b]).dropWhile isSpace = a :: s ++ [b] := List.dropWhile_cons_of_neg (by simp [ha])
  rw [trimSpace, hhead]
  exact List.rdropWhile_concat_neg _ _ _ (by simp [hb])

/-- A trimmed text has no space at its ends any more. -/
@[simp] theorem trimSpace_trimSpace (s : Text) : trimSpace (trimSpace s) = trimSpace s := by
  have hhead : (trimSpace s).dropWhile isSpace = trimSpace s := by
    rw [List.dropWhile_eq_self_iff]
    intro hpos
    have hinit : trimSpace s <+: s.dropWhile isSpace := List.rdropWhile_prefix _ _
    have hlen : 0 < (s.dropWhile isSpace).length := hpos.trans_le hinit.length_le
    rw [hinit.getElem hpos]
    exact List.dropWhile_get_zero_not isSpace s hlen
  change ((trimSpace s).dropWhile isSpace).rdropWhile isSpace = trimSpace s
  rw [hhead]
  exact List.rdropWhile_idempotent _ _

/-! ## Paths in Go

The functions of `path/filepath` that the installer uses, on a system whose separator
is the slash.
-/

/-- The elements of a path, the last one first, with `.` and `..` taken out. -/
def cleanElements (rooted : Bool) : List Text → List Text → List Text
  | kept, [] => kept
  | kept, element :: rest =>
    if element = [] ∨ element = ".".toList then cleanElements rooted kept rest
    else if element = "..".toList then
      match kept with
      | last :: kept' =>
        if last = "..".toList then cleanElements rooted (element :: kept) rest
        else cleanElements rooted kept' rest
      | [] => cleanElements rooted (if rooted then [] else [element]) rest
    else cleanElements rooted (element :: kept) rest

/-- `filepath.Clean` -/
def clean (path : Text) : Text :=
  let rooted := hasPrefix path ['/']
  let body := ['/'].intercalate (cleanElements rooted [] (path.splitOn '/')).reverse
  if rooted then '/' :: body else if body = [] then ".".toList else body

/-- `filepath.Base` -/
def base (path : Text) : Text :=
  if path = [] then ".".toList
  else
    let stripped := path.rdropWhile (· = '/')
    if stripped = [] then ['/'] else stripped.rtakeWhile (· ≠ '/')

example : ([" /app/data", "/app//data/", "/app/./x/../data", "../a"].map (clean ·.toList),
    ["/opt/altr-test", "/", "a/"].map (base ·.toList)) =
    ([" /app/data", "/app/data", "/app/data", "../a"].map (·.toList),
      ["altr-test", "/", "a"].map (·.toList)) := by decide

end AltrStream.Go
