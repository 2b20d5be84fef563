import AltrStream.Connectors.ShellTotality
import AltrStream.Python.LoadsText

/-! # JSON in MongoDB's shell syntax

The lexer and the parser of the shell on the text of a JSON value. They return the value
of its syntax tree with the code units of the strings as they are written, where
`json.loads` joins surrogate pairs.
-/
namespace AltrStream.Connectors.Shell
open Foundations Python Shell.Parser Shell.Lexer JsonDecoder

/-! ### Tokens of a text -/

section
variable {u : Unicode}

/-- The text has these tokens, of a whole text of that length. -/
def Lexes (u : Unicode) (length : ℕ) (text : List Char) (tokens : List Token) : Prop :=
  ∃ fuel ≤ text.length + 1, scan u length fuel text = .ok tokens

theorem scan_succ {length fuel : ℕ} {text : List Char} {tokens : List Token}
    (h : scan u length fuel text = .ok tokens) : scan u length (fuel + 1) text = .ok tokens := by
  induction fuel generalizing text tokens with
  | zero => cases h
  | succ fuel ih =>
    rw [scan] at h ⊢
    split at h
    · exact h
    · obtain ⟨⟨type, stop⟩, hstep, hrest⟩ := bind_eq_ok.1 h
      obtain ⟨more, hmore, htokens⟩ := bind_eq_ok.1 hrest
      cases htokens
      exact bind_eq_ok.2 ⟨_, hstep, bind_eq_ok.2 ⟨_, ih hmore, rfl⟩⟩

theorem Lexes.tokenize {text : List Char} {tokens : List Token} (h : Lexes u text.length text tokens) :
    tokenize u text = .ok tokens := by
  obtain ⟨fuel, hfuel, hscan⟩ := h
  obtain ⟨k, hk⟩ := Nat.le.dest hfuel
  have hadd : ∀ k, scan u text.length (fuel + k) text = .ok tokens := by
    intro k
    induction k with
    | zero => exact hscan
    | succ k ih => exact scan_succ ih
  rw [Lexer.tokenize, ← hk]
  exact hadd k

theorem lexes_nil (length : ℕ) : Lexes u length [] [⟨.eof, length⟩] := ⟨1, le_rfl, rfl⟩

/-- A token in front of others. -/
theorem lexes_step {length : ℕ} {text rest stop : List Char} {ch : Char} {type : TokenType}
    {tokens : List Token} (hskip : skipBlank .spaces text = ch :: rest)
    (hstep : ∀ position, step u ch rest position = .ok (type, stop))
    (hstop : stop.length ≤ rest.length) (h : Lexes u length stop tokens) :
    ∃ p, Lexes u length text (⟨type, p⟩ :: tokens) := by
  obtain ⟨fuel, hfuel, hscan⟩ := h
  have hlength := length_skipBlank .spaces text
  rw [hskip, List.length_cons] at hlength
  refine ⟨length - (rest.length + 1), fuel + 1, by omega, ?_⟩
  rw [scan, hskip]
  exact bind_eq_ok.2 ⟨_, hstep _, bind_eq_ok.2 ⟨_, hscan, rfl⟩⟩

theorem skipBlank_blanks (blanks : Blanks) (text : List Char) :
    skipBlank .spaces (blanks.1 ++ text) = skipBlank .spaces text := by
  obtain ⟨blanks, hblanks⟩ := blanks
  induction blanks with
  | nil => rfl
  | cons c blanks ih =>
    have hc : c ∈ [' ', '\t', '\n', '\r'] := by simpa [isSpace] using hblanks c List.mem_cons_self
    have hrest := ih fun d hd => hblanks d (List.mem_cons_of_mem _ hd)
    have hskip : skipBlank .spaces (c :: (blanks ++ text)) = skipBlank .spaces (blanks ++ text) := by
      simp only [List.mem_cons, List.not_mem_nil, or_false] at hc
      rcases hc with rfl | rfl | rfl | rfl <;> exact if_pos (by decide)
    exact hskip.trans hrest

theorem lexes_blanks {length : ℕ} {text : List Char} {tokens : List Token} (blanks : Blanks)
    (h : Lexes u length text tokens) : Lexes u length (blanks.1 ++ text) tokens := by
  obtain ⟨fuel, hfuel, hscan⟩ := h
  refine ⟨fuel, by rw [List.length_append]; omega, ?_⟩
  cases fuel with
  | zero => cases hscan
  | succ fuel =>
    rw [scan] at hscan ⊢
    rwa [skipBlank_blanks]

theorem skipBlank_cons {c : Char} (hspace : isspace c = false) (hslash : c ≠ '/') (rest : List Char) :
    skipBlank .spaces (c :: rest) = c :: rest := by
  unfold skipBlank
  split <;> simp_all

theorem lexes_single {length : ℕ} {c : Char} {type : TokenType} {rest : List Char}
    {tokens : List Token} (hc : singleToken? c = some type) (hspace : isspace c = false)
    (hslash : c ≠ '/') (h : Lexes u length rest tokens) :
    ∃ p, Lexes u length (c :: rest) (⟨type, p⟩ :: tokens) :=
  lexes_step (skipBlank_cons hspace hslash rest) (fun _ => by rw [step, hc]) le_rfl h

/-! ### Strings -/

/-- A hexadecimal digit is an ASCII character, and neither a space nor a sign. -/
theorem hexDigit?_facts {c : Char} (h : (hexDigit? c).isSome) :
    c.toNat < 128 ∧ isspace c = false ∧ c ∉ ['-', '+', 'x', 'X', '_'] ∧
      (asciiDigit? c).or (hexDigit? c) = hexDigit? c := by
  have hlt : c.toNat < 128 := by
    unfold hexDigit? at h
    split_ifs at h with hdigit hlower hupper
    · exact (Char.isDigit_iff_toNat.1 hdigit).2.trans_lt (by decide)
    · have hle : c.toNat ≤ 'f'.toNat := hlower.2
      exact hle.trans_lt (by decide)
    · have hle : c.toNat ≤ 'F'.toNat := hupper.2
      exact hle.trans_lt (by decide)
    · cases h
  refine ⟨hlt, ?_⟩
  revert h
  exact forall_ascii (p := fun c => (hexDigit? c).isSome → isspace c = false ∧
    c ∉ ['-', '+', 'x', 'X', '_'] ∧ (asciiDigit? c).or (hexDigit? c) = hexDigit? c) (by decide) hlt

theorem hexDigit?_lt {c : Char} {d : ℕ} (h : hexDigit? c = some d) : d < 16 := by
  have hlt := (hexDigit?_facts (by rw [h]; rfl)).1
  have hall : ∀ d ∈ hexDigit? c, d < 16 :=
    forall_ascii (p := fun c => ∀ d ∈ hexDigit? c, d < 16) (by decide) hlt
  exact hall d h

theorem hexDigits?_of_mapM (hu : AsciiTables u) {text : List Char} {digits : List ℕ}
    (h : text.mapM hexDigit? = some digits) : hexDigits? u text = some digits := by
  induction text generalizing digits with
  | nil => exact h
  | cons c rest ih =>
    rw [List.mapM_cons] at h
    simp only [Option.bind_eq_bind, Option.bind_eq_some_iff, Option.pure_def, Option.some.injEq] at h
    obtain ⟨d, hd, digits, hdigits, rfl⟩ := h
    obtain ⟨hlt, -, -, hor⟩ := hexDigit?_facts (c := c) (by rw [hd]; rfl)
    have hrest := ih hdigits
    unfold hexDigits?
    rw [hu.decimal c hlt, hor, hd]
    simp only [Option.bind_eq_bind, Option.bind_some]
    split
    · rw [List.mapM_cons] at hdigits
      cases hdigits
    · rw [hrest]
      rfl

/-- The value of hexadecimal digits is the number that they write, which is one of UTF-16. -/
theorem decodeUnit_hex (hu : AsciiTables u) {a b c d : Char} {code : ℕ}
    (h : hexValue? [a, b, c, d] = some code) : decodeUnit u [a, b, c, d] = [code] := by
  obtain ⟨digits, hdigits, rfl⟩ := Option.map_eq_some_iff.1 h
  have hmapM : [a, b, c, d].mapM hexDigit? = some digits := hdigits
  simp only [List.mapM_cons, List.mapM_nil, Option.bind_eq_bind, Option.bind_eq_some_iff,
    Option.pure_def, Option.some.injEq] at hmapM
  obtain ⟨va, hva, _, ⟨vb, hvb, _, ⟨vc, hvc, _, ⟨vd, hvd, _, rfl, rfl⟩, rfl⟩, rfl⟩, rfl⟩ := hmapM
  obtain ⟨-, hspacea, hsigna, -⟩ := hexDigit?_facts (c := a) (by rw [hva]; rfl)
  obtain ⟨-, hspaceb, hsignb, -⟩ := hexDigit?_facts (c := b) (by rw [hvb]; rfl)
  obtain ⟨-, hspaced, -, -⟩ := hexDigit?_facts (c := d) (by rw [hvd]; rfl)
  have hstrip : stripChars [a, b, c, d] = [a, b, c, d] := by
    simp [stripChars, List.rdropWhile, hspacea, hspaced]
  simp only [List.mem_cons, List.not_mem_nil, or_false, not_or] at hsigna hsignb
  have hunsigned : unsigned [a, b, c, d] = (false, [a, b, c, d]) := by
    unfold unsigned
    split
    · next heq => exact absurd (List.cons.inj heq).1 hsigna.1
    · next heq => exact absurd (List.cons.inj heq).1 hsigna.2.1
    · rfl
  have hunmarked : unmarked [a, b, c, d] = [a, b, c, d] := by
    unfold unmarked
    split
    · next heq =>
      obtain ⟨rfl, htail⟩ := List.cons.inj heq
      obtain ⟨rfl, rfl⟩ := List.cons.inj htail
      rw [if_neg fun h => h.elim hsignb.2.2.1 hsignb.2.2.2.1]
    · rfl
  have hint : intOfHex? u [a, b, c, d] =
      some (([va, vb, vc, vd].foldl (fun n d => 16 * n + d) 0 : ℕ) : ℤ) := by
    simp only [intOfHex?, hstrip, hunsigned, hunmarked, hexDigits?_of_mapM hu hdigits]
    rfl
  have hva' := hexDigit?_lt hva
  have hvb' := hexDigit?_lt hvb
  have hvc' := hexDigit?_lt hvc
  have hvd' := hexDigit?_lt hvd
  unfold decodeUnit
  rw [hint]
  simp only [List.foldl_cons, List.foldl_nil]
  rw [Int.toNat_natCast]
  exact if_pos (by omega)

theorem scanChars_plain {c : Char} (hplain : c ≠ '"' ∧ c ≠ '\\' ∧ 0x20 ≤ c.toNat) (rest : List Char) :
    scanChars u '"' (c :: rest) =
      (scanChars u '"' rest).bind fun read => some (c.toNat :: read.1, read.2) := by
  obtain ⟨hquote, hslash, -⟩ := hplain
  conv_lhs => unfold scanChars
  split
  · next heq => cases heq
  · next heq => exact absurd (List.cons.inj heq).1 hslash
  · next heq => exact absurd (List.cons.inj heq).1 hslash
  · next heq =>
    obtain ⟨rfl, rfl⟩ := List.cons.inj heq
    rw [if_neg hquote]
    rfl

/-- The two readers agree on the escapes that JSON has. -/
theorem unescape_of_jsonEscape? {c char : Char} (h : jsonEscape? c = some char) :
    unescape c = char ∧ c ≠ 'u' := by
  unfold jsonEscape? at h
  split at h <;> cases h <;> exact ⟨rfl, by decide⟩

theorem scanChars_escape {c char : Char} (hescape : jsonEscape? c = some char) (rest : List Char) :
    scanChars u '"' ('\\' :: c :: rest) =
      (scanChars u '"' rest).bind fun read => some (char.toNat :: read.1, read.2) := by
  obtain ⟨rfl, hunit⟩ := unescape_of_jsonEscape? hescape
  conv_lhs => unfold scanChars
  split
  · next heq => cases heq
  · next heq => exact absurd (List.cons.inj (List.cons.inj heq).2).1 hunit
  · next heq =>
    obtain ⟨rfl, rfl⟩ := List.cons.inj (List.cons.inj heq).2
    rfl
  · next hnot heq =>
    obtain ⟨rfl, rfl⟩ := List.cons.inj heq
    exact absurd rfl (hnot c rest rfl)

theorem scanChars_unit (hu : AsciiTables u) {a b c d : Char} {code : ℕ}
    (hcode : hexValue? [a, b, c, d] = some code) (rest : List Char) :
    scanChars u '"' ('\\' :: 'u' :: a :: b :: c :: d :: rest) =
      (scanChars u '"' rest).bind fun read => some (code :: read.1, read.2) := by
  conv_lhs => unfold scanChars
  simp only [decodeUnit_hex hu hcode]
  rfl

theorem scanChars_pieces (hu : AsciiTables u) (pieces : List Piece) (rest : List Char) :
    scanChars u '"' (pieces.flatMap Piece.text ++ '"' :: rest) = some (pieces.map Piece.code, rest) := by
  induction pieces with
  | nil => rfl
  | cons piece pieces ih =>
    rw [List.flatMap_cons, List.append_assoc, List.map_cons]
    cases piece with
    | plain c hplain =>
      change scanChars u '"' (c :: (pieces.flatMap Piece.text ++ '"' :: rest)) = _
      rw [scanChars_plain hplain, ih]
      rfl
    | escape c char hescape =>
      change scanChars u '"' ('\\' :: c :: (pieces.flatMap Piece.text ++ '"' :: rest)) = _
      rw [scanChars_escape hescape, ih]
      rfl
    | unit a b c d code hcode =>
      change scanChars u '"'
        ('\\' :: 'u' :: a :: b :: c :: d :: (pieces.flatMap Piece.text ++ '"' :: rest)) = _
      rw [scanChars_unit hu hcode, ih]
      rfl

theorem lexes_string (hu : AsciiTables u) {length : ℕ} {rest : List Char} {tokens : List Token}
    (pieces : List Piece) (h : Lexes u length rest tokens) :
    ∃ p, Lexes u length (quoted pieces ++ rest) (⟨.string (pieces.map Piece.code), p⟩ :: tokens) := by
  rw [JsonText.quoted_append]
  refine lexes_step (skipBlank_cons (by decide) (by decide) _) (fun _ => ?_) ?_ h
  · have hsingle : singleToken? '"' = none := rfl
    simp only [step, hsingle, or_true, if_true, scanChars_pieces hu]
  · rw [List.length_append, List.length_cons]
    omega

/-! ### Numbers -/

/-- A character that may stand behind a value belongs to no number and to no name. -/
theorem follows_facts (hu : AsciiTables u) {c : Char}
    (h : isSpace c = true ∨ c = ',' ∨ c = ']' ∨ c = '}' ) :
    u.isdigit c = false ∧ c ∉ ['.', 'e', 'E', '+', '-'] ∧ isIdentifierChar u c = false := by
  have hmem : c ∈ [' ', '\t', '\n', '\r', ',', ']', '}'] := by
    simpa [isSpace, or_assoc] using h
  have hlt : c.toNat < 128 := by
    clear h
    revert c
    decide
  rw [isIdentifierChar, hu.isdigit c hlt, hu.isalnum c hlt]
  clear h hlt
  revert c
  decide

/-- The rest of a number is read whole, whatever its last character was. -/
def ReadsOn (u : Unicode) (previous : Char) (text : List Char) : Prop :=
  ∀ rest, Follows rest → readDigits u previous (text ++ rest) = (text, rest)

theorem readsOn_nil (hu : AsciiTables u) (previous : Char) : ReadsOn u previous [] := by
  intro rest hrest
  cases rest with
  | nil => rfl
  | cons c rest =>
    obtain ⟨hdigit, hnot, -⟩ := follows_facts hu (hrest c rfl)
    change readDigits u previous (c :: rest) = ([], c :: rest)
    rw [readDigits, if_neg]
    simp [hdigit, hnot]

/-- A sign belongs to a number only behind an `e`. -/
theorem readsOn_cons {previous c : Char} {text : List Char}
    (hc : u.isdigit c = true ∨ c ∈ ['.', 'e', 'E', '+', '-'])
    (hsign : (c = '+' ∨ c = '-') → previous = 'e' ∨ previous = 'E') (h : ReadsOn u c text) :
    ReadsOn u previous (c :: text) := by
  intro rest hrest
  rw [List.cons_append, readDigits, if_pos (by simpa using hc), if_neg, h rest hrest]
  rintro ⟨hc', he, hE⟩
  rcases hsign hc' with rfl | rfl
  · exact he rfl
  · exact hE rfl

theorem readsOn_digits (hu : AsciiTables u) {digits text : List Char}
    (hdigits : ∀ c ∈ digits, c.isDigit = true) (h : ∀ previous, ReadsOn u previous text)
    (previous : Char) : ReadsOn u previous (digits ++ text) := by
  induction digits generalizing previous with
  | nil => exact h previous
  | cons c digits ih =>
    have hdigit := hdigits c List.mem_cons_self
    have hlt : c.toNat < 128 := (Char.isDigit_iff_toNat.1 hdigit).2.trans_lt (by decide)
    refine readsOn_cons (.inl ((hu.isdigit c hlt).trans hdigit)) ?_
      (ih (fun d hd => hdigits d (List.mem_cons_of_mem _ hd)) c)
    rintro (rfl | rfl) <;> cases hdigit

theorem readsOn_exponent (hu : AsciiTables u) (n : NumberText) (previous : Char) :
    ReadsOn u previous n.exponent := by
  rcases n.exponent_digits with hnil | ⟨e, sign, digits, hexponent, he, hsign, -, hdigits⟩
  · rw [hnil]
    exact readsOn_nil hu previous
  · have hread : ∀ c, ReadsOn u c digits := fun c => by
      simpa using readsOn_digits hu hdigits (readsOn_nil hu) c
    have hmem : e ∈ ['.', 'e', 'E', '+', '-'] ∧ ¬(e = '+' ∨ e = '-') := by
      rcases he with rfl | rfl <;> decide
    rw [hexponent]
    refine readsOn_cons (.inr hmem.1) (fun h => absurd h hmem.2) ?_
    rcases hsign with rfl | rfl | rfl
    · exact hread e
    · exact readsOn_cons (.inr (by decide)) (fun _ => he) (hread '+')
    · exact readsOn_cons (.inr (by decide)) (fun _ => he) (hread '-')

theorem readsOn_pointed (hu : AsciiTables u) (n : NumberText) (previous : Char) :
    ReadsOn u previous (n.pointed ++ n.exponent) := by
  unfold NumberText.pointed
  split_ifs
  · exact readsOn_exponent hu n previous
  · refine readsOn_cons (.inr (by decide)) (fun h => absurd h (by decide)) ?_
    exact readsOn_digits hu n.fraction_digits (readsOn_exponent hu n) '.'

theorem readNumber_text (hu : AsciiTables u) (n : NumberText) {rest : List Char}
    (hrest : Follows rest) : ∃ c more, n.text ++ rest = c :: more ∧
      (c = '-' ∨ c.isDigit = true) ∧ readNumber u c more = (n.text, rest) := by
  have hwhole := readsOn_digits hu n.whole_digits.2.1 (readsOn_pointed hu n)
  cases hsign : n.negative with
  | true =>
    have htext : n.text = '-' :: (n.whole ++ (n.pointed ++ n.exponent)) := by
      simp [NumberText.text, NumberText.sign, hsign]
    refine ⟨'-', _, by rw [htext, List.cons_append], .inl rfl, ?_⟩
    rw [readNumber, hwhole '-' rest hrest, htext]
  | false =>
    obtain ⟨hsome, hdigits, -⟩ := n.whole_digits
    cases hdigit : n.whole with
    | nil => exact absurd hdigit hsome
    | cons c digits =>
      have htext : n.text = c :: (digits ++ (n.pointed ++ n.exponent)) := by
        simp [NumberText.text, NumberText.sign, hsign, hdigit]
      rw [hdigit] at hdigits
      have hread := readsOn_digits hu (fun d hd => hdigits d (List.mem_cons_of_mem _ hd))
        (readsOn_pointed hu n) c
      refine ⟨c, _, by rw [htext, List.cons_append], .inr (hdigits c List.mem_cons_self), ?_⟩
      rw [readNumber, hread rest hrest, htext]

/-- A number is a float if it has a fraction or an exponent. -/
theorem numberOf?_text {β : Type} (n : NumberText) :
    (numberOf? u n.text).map Number.toValue = (n.value u : Option (PyValue β)) := by
  have hnot : ∀ c ∈ n.sign ++ n.whole, c ≠ '.' ∧ c ≠ 'e' ∧ c ≠ 'E' := by
    intro c hc
    rcases List.mem_append.1 hc with hc | hc
    · unfold NumberText.sign at hc
      split_ifs at hc
      · obtain rfl := List.mem_singleton.1 hc
        decide
      · cases hc
    · have hdigit := n.whole_digits.2.1 c hc
      refine ⟨?_, ?_, ?_⟩ <;>
      · rintro rfl
        cases hdigit
  have htext : n.text = (n.sign ++ n.whole) ++ (n.pointed ++ n.exponent) := by simp [NumberText.text]
  have hfloat : ('.' ∈ n.text ∨ 'e' ∈ n.text ∨ 'E' ∈ n.text) ↔ ¬(n.pointed ++ n.exponent = []) := by
    constructor
    · intro h hnil
      rw [htext, hnil, List.append_nil] at h
      rcases h with h | h | h
      · exact (hnot _ h).1 rfl
      · exact (hnot _ h).2.1 rfl
      · exact (hnot _ h).2.2 rfl
    · intro h
      rw [htext]
      by_cases hfraction : n.fraction = []
      · have hpointed : n.pointed = [] := if_pos hfraction
        rcases n.exponent_digits with hnil | ⟨e, sign, digits, hexponent, he, -⟩
        · exact absurd (by rw [hpointed, hnil]; rfl) h
        · rw [hexponent]
          rcases he with rfl | rfl <;> simp
      · have hpointed : n.pointed = '.' :: n.fraction := if_neg hfraction
        rw [hpointed]
        simp
  unfold numberOf? NumberText.value
  by_cases hnil : n.pointed ++ n.exponent = []
  · rw [if_neg fun h => hfloat.1 h hnil, if_pos hnil, Option.map_map]
    rfl
  · rw [if_pos (hfloat.2 hnil), if_neg hnil, Option.map_map]
    rfl

theorem lexes_number {β : Type} (hu : AsciiTables u) {length : ℕ} {rest : List Char}
    {tokens : List Token} (n : NumberText) {v : PyValue β} (hv : n.value u = some v)
    (hrest : Follows rest) (h : Lexes u length rest tokens) :
    ∃ number p, Lexes u length (n.text ++ rest) (⟨.number number, p⟩ :: tokens) ∧
      number.toValue = v := by
  rw [← numberOf?_text] at hv
  obtain ⟨number, hnumber, hvalue⟩ := Option.map_eq_some_iff.1 hv
  obtain ⟨c, more, htext, hc, hread⟩ := readNumber_text hu n hrest
  have hplain : isspace c = false ∧ c ≠ '/' ∧ singleToken? c = none ∧ ¬(c = '\'' ∨ c = '"') ∧
      (c = '-' ∨ u.isdigit c = true) := by
    rcases hc with rfl | hdigit
    · exact ⟨by decide, by decide, rfl, by decide, .inl rfl⟩
    · have hlt : c.toNat < 128 := (Char.isDigit_iff_toNat.1 hdigit).2.trans_lt (by decide)
      have hfacts := forall_ascii (p := fun c => c.isDigit = true → isspace c = false ∧ c ≠ '/' ∧
        singleToken? c = none ∧ ¬(c = '\'' ∨ c = '"')) (by decide) hlt hdigit
      exact ⟨hfacts.1, hfacts.2.1, hfacts.2.2.1, hfacts.2.2.2, .inr ((hu.isdigit c hlt).trans hdigit)⟩
  obtain ⟨hspace, hslash, hsingle, hquote, hnumeric⟩ := hplain
  have hstop : rest.length ≤ more.length := by
    have hlength := length_readDigits (u := u) c more
    rw [readNumber] at hread
    rw [← (Prod.mk.inj hread).2]
    exact hlength
  have htoken : ∃ p, Lexes u length (n.text ++ rest) (⟨.number number, p⟩ :: tokens) := by
    rw [htext]
    refine lexes_step (skipBlank_cons hspace hslash _) (fun _ => ?_) hstop h
    simp only [step, hsingle, if_neg hquote, if_pos hnumeric, hread, hnumber]
  obtain ⟨p, hp⟩ := htoken
  exact ⟨number, p, hp, hvalue⟩

/-! ### Words -/

/-- Letters up to a character that no name has are one name. -/
theorem lexes_word (hu : AsciiTables u) {length : ℕ} {rest : List Char} {tokens : List Token}
    (word : List Char) (hsome : word ≠ []) (hword : ∀ c ∈ word, c.toNat < 128 ∧ c.isAlpha = true)
    (hrest : ∀ c ∈ rest.head?, isIdentifierChar u c = false) (h : Lexes u length rest tokens) :
    ∃ p, Lexes u length (word ++ rest) (⟨.identifier word, p⟩ :: tokens) := by
  have hname : ∀ c ∈ word, isIdentifierChar u c = true := by
    intro c hc
    obtain ⟨hlt, halpha⟩ := hword c hc
    rw [isIdentifierChar, hu.isalnum c hlt, Char.isAlphanum, halpha]
    rfl
  have hnone : rest.takeWhile (isIdentifierChar u) = [] ∧ rest.dropWhile (isIdentifierChar u) = rest := by
    cases rest with
    | nil => exact ⟨rfl, rfl⟩
    | cons d rest => simp [hrest d rfl]
  have htake : (word ++ rest).takeWhile (isIdentifierChar u) = word := by
    rw [List.takeWhile_append_of_pos hname, hnone.1, List.append_nil]
  have hdrop : (word ++ rest).dropWhile (isIdentifierChar u) = rest := by
    rw [List.dropWhile_append_of_pos hname, hnone.2]
  cases word with
  | nil => exact absurd rfl hsome
  | cons c word =>
    obtain ⟨hlt, halpha⟩ := hword c List.mem_cons_self
    have hfacts := forall_ascii (p := fun c => c.isAlpha = true → isspace c = false ∧ c ≠ '/' ∧
      singleToken? c = none ∧ ¬(c = '\'' ∨ c = '"') ∧ ¬(c = '-' ∨ c.isDigit = true) ∧ c ∉ operators)
      (by decide) hlt halpha
    obtain ⟨hspace, hslash, hsingle, hquote, hnumeric, hoperator⟩ := hfacts
    rw [← hu.isdigit c hlt] at hnumeric
    have hletter : u.isalpha c = true ∨ c = '_' ∨ c = '$' := .inl ((hu.isalpha c hlt).trans halpha)
    rw [List.cons_append] at htake hdrop ⊢
    refine lexes_step (skipBlank_cons hspace hslash _) (fun _ => ?_) ?_ h
    · simp only [step, hsingle, if_neg hquote, if_neg hnumeric, if_neg hoperator, if_pos hletter,
        htake, hdrop]
    · rw [List.length_append]
      omega

end

/-! ### Trees -/

section
variable {β : Type} {env : Env β}

/-- The text of a tree has tokens that spell its value, in front of those of what follows. -/
def Lexed (env : Env β) : (kind : JsonKind) → JsonText kind → Prop
  | .value, t => ∀ v, t.value env.unicode id = some v → ∀ length rest more, Follows rest →
    Lexes env.unicode length rest more →
    ∃ ts, Lexes env.unicode length (t.text ++ rest) (ts ++ more) ∧ Spells env (.value v) ts
  | .items, t => ∀ items, t.value env.unicode id = some items → ∀ length rest more,
    Lexes env.unicode length rest more →
    ∃ ts, Lexes env.unicode length (t.text ++ rest) (ts ++ more) ∧ Spells env (.items items) ts
  | .members, t => ∀ entries, t.value env.unicode id = some entries → ∀ length rest more,
    Lexes env.unicode length rest more →
    ∃ ts, Lexes env.unicode length (t.text ++ rest) (ts ++ more) ∧ Spells env (.properties entries) ts

theorem lexed_word (hu : AsciiTables env.unicode) {t : JsonText .value} {word : List Char}
    {v : PyValue β} (htext : t.text = word) (hvalue : t.value env.unicode id = some v)
    (hsome : word ≠ []) (hword : ∀ c ∈ word, c.toNat < 128 ∧ c.isAlpha = true)
    (hkeyword : keyword? word = some v) : Lexed env .value t := by
  intro v' hv' length rest more hrest h
  obtain rfl := Option.some.inj (hvalue.symm.trans hv')
  obtain ⟨p, hp⟩ := lexes_word hu word hsome hword (fun c hc => (follows_facts hu (hrest c hc)).2.2) h
  exact ⟨[⟨.identifier word, p⟩], htext ▸ hp, .keyword hkeyword⟩

theorem lexed_array {items : JsonText .items} (ih : Lexed env .items items) :
    Lexed env .value (.array items) := by
  intro v hv length rest more _ h
  obtain ⟨vs, hvs, rfl⟩ := Option.map_eq_some_iff.1 hv
  obtain ⟨ts, hlexes, hspells⟩ := ih vs hvs length rest more h
  obtain ⟨p, hp⟩ := lexes_single (c := '[') rfl (by decide) (by decide) hlexes
  exact ⟨⟨.lbracket, p⟩ :: ts, hp, .array hspells⟩

theorem lexed_object {members : JsonText .members} (ih : Lexed env .members members) :
    Lexed env .value (.object members) := by
  intro v hv length rest more _ h
  obtain ⟨entries, hentries, rfl⟩ := Option.map_eq_some_iff.1 hv
  obtain ⟨ts, hlexes, hspells⟩ := ih entries hentries length rest more h
  obtain ⟨p, hp⟩ := lexes_single (c := '{') rfl (by decide) (by decide) hlexes
  exact ⟨⟨.lbrace, p⟩ :: ts, hp, .object hspells⟩

theorem lexed_lastItem {before after : Blanks} {item : JsonText .value} (ih : Lexed env .value item) :
    Lexed env .items (.lastItem before item after) := by
  intro items hitems length rest more h
  obtain ⟨v, hv, rfl⟩ := Option.map_eq_some_iff.1 hitems
  obtain ⟨p, hp⟩ := lexes_single (c := ']') rfl (by decide) (by decide) h
  obtain ⟨ts, hlexes, hspells⟩ := ih v hv length _ _ (follows_blanks after (by simp) rest)
    (lexes_blanks after hp)
  refine ⟨ts ++ [⟨.rbracket, p⟩], ?_, .lastItem hspells ⟨p, .inl rfl⟩⟩
  have htext := lexes_blanks before hlexes
  simpa [JsonText.text] using htext

theorem lexed_nextItem {before after : Blanks} {item : JsonText .value} {items : JsonText .items}
    (ih : Lexed env .value item) (ihmore : Lexed env .items items) :
    Lexed env .items (.nextItem before item after items) := by
  intro all hall length rest more h
  obtain ⟨v, hv, hrest⟩ := Option.bind_eq_some_iff.1 hall
  obtain ⟨vs, hvs, rfl⟩ := Option.map_eq_some_iff.1 hrest
  obtain ⟨ts', hlexes', hspells'⟩ := ihmore vs hvs length rest more h
  obtain ⟨p, hp⟩ := lexes_single (c := ',') rfl (by decide) (by decide) hlexes'
  obtain ⟨ts, hlexes, hspells⟩ := ih v hv length _ _ (follows_blanks after (by simp) _)
    (lexes_blanks after hp)
  refine ⟨ts ++ ⟨.comma, p⟩ :: ts', ?_, .nextItem hspells hspells'⟩
  have htext := lexes_blanks before hlexes
  simpa [JsonText.text] using htext

/-- A key with its colon, in front of a value. -/
theorem lexes_key (hu : AsciiTables env.unicode) {length : ℕ} {text : List Char} {tokens : List Token}
    (before : Blanks) (key : List Piece) (colon behind : Blanks)
    (h : Lexes env.unicode length text tokens) :
    ∃ p q, Lexes env.unicode length
      (before.1 ++ (quoted key ++ (colon.1 ++ ':' :: (behind.1 ++ text))))
      (⟨.string (key.map Piece.code), p⟩ :: ⟨.colon, q⟩ :: tokens) := by
  obtain ⟨q, hq⟩ := lexes_single (c := ':') rfl (by decide) (by decide) (lexes_blanks behind h)
  obtain ⟨p, hp⟩ := lexes_string hu key (lexes_blanks colon hq)
  exact ⟨p, q, lexes_blanks before hp⟩

theorem lexed_lastMember (hu : AsciiTables env.unicode) {before colon behind after : Blanks}
    {key : List Piece} {item : JsonText .value} (ih : Lexed env .value item) :
    Lexed env .members (.lastMember before key colon behind item after) := by
  intro entries hentries length rest more h
  obtain ⟨v, hv, rfl⟩ := Option.map_eq_some_iff.1 hentries
  obtain ⟨r, hr⟩ := lexes_single (c := '}') rfl (by decide) (by decide) h
  obtain ⟨ts, hlexes, hspells⟩ := ih v hv length _ _ (follows_blanks after (by simp) rest)
    (lexes_blanks after hr)
  obtain ⟨p, q, hkey⟩ := lexes_key hu before key colon behind hlexes
  refine ⟨⟨.string (key.map Piece.code), p⟩ :: ⟨.colon, q⟩ :: (ts ++ [⟨.rbrace, r⟩]), ?_,
    .lastProperty rfl hspells ⟨r, .inl rfl⟩⟩
  simpa [JsonText.text] using hkey

theorem lexed_nextMember (hu : AsciiTables env.unicode) {before colon behind after : Blanks}
    {key : List Piece} {item : JsonText .value} {members : JsonText .members}
    (ih : Lexed env .value item) (ihmore : Lexed env .members members) :
    Lexed env .members (.nextMember before key colon behind item after members) := by
  intro all hall length rest more h
  obtain ⟨v, hv, hrest⟩ := Option.bind_eq_some_iff.1 hall
  obtain ⟨entries, hentries, rfl⟩ := Option.map_eq_some_iff.1 hrest
  obtain ⟨ts', hlexes', hspells'⟩ := ihmore entries hentries length rest more h
  obtain ⟨r, hr⟩ := lexes_single (c := ',') rfl (by decide) (by decide) hlexes'
  obtain ⟨ts, hlexes, hspells⟩ := ih v hv length _ _ (follows_blanks after (by simp) _)
    (lexes_blanks after hr)
  obtain ⟨p, q, hkey⟩ := lexes_key hu before key colon behind hlexes
  refine ⟨⟨.string (key.map Piece.code), p⟩ :: ⟨.colon, q⟩ :: (ts ++ ⟨.comma, r⟩ :: ts'), ?_,
    .nextProperty rfl hspells hspells'⟩
  simpa [JsonText.text] using hkey

theorem lexed (hu : AsciiTables env.unicode) {kind : JsonKind} (t : JsonText kind) :
    Lexed env kind t := by
  induction t with
  | null => exact lexed_word hu rfl rfl (by decide) (by decide) rfl
  | bool b => cases b <;> exact lexed_word hu rfl rfl (by decide) (by decide) rfl
  | number n =>
    intro v hv length rest more hrest h
    obtain ⟨number, p, hp, rfl⟩ := lexes_number hu n hv hrest h
    exact ⟨[⟨.number number, p⟩], hp, .number⟩
  | string pieces =>
    intro v hv length rest more _ h
    obtain rfl := Option.some.inj hv
    obtain ⟨p, hp⟩ := lexes_string hu pieces h
    exact ⟨[⟨.string (pieces.map Piece.code), p⟩], hp, .string⟩
  | emptyArray inside =>
    intro v hv length rest more _ h
    obtain rfl := Option.some.inj hv
    obtain ⟨q, hq⟩ := lexes_single (c := ']') rfl (by decide) (by decide) h
    obtain ⟨p, hp⟩ := lexes_single (c := '[') rfl (by decide) (by decide) (lexes_blanks inside hq)
    exact ⟨[⟨.lbracket, p⟩, ⟨.rbracket, q⟩], by simpa [JsonText.text] using hp, .emptyArray⟩
  | emptyObject inside =>
    intro v hv length rest more _ h
    obtain rfl := Option.some.inj hv
    obtain ⟨q, hq⟩ := lexes_single (c := '}') rfl (by decide) (by decide) h
    obtain ⟨p, hp⟩ := lexes_single (c := '{') rfl (by decide) (by decide) (lexes_blanks inside hq)
    exact ⟨[⟨.lbrace, p⟩, ⟨.rbrace, q⟩], by simpa [JsonText.text] using hp, .emptyObject⟩
  | array items ih => exact lexed_array ih
  | object members ih => exact lexed_object ih
  | lastItem before item after ih => exact lexed_lastItem ih
  | nextItem before item after more ih ihmore => exact lexed_nextItem ih ihmore
  | lastMember before key colon behind item after ih => exact lexed_lastMember hu ih
  | nextMember before key colon behind item after more ih ihmore => exact lexed_nextMember hu ih ihmore

end

end AltrStream.Connectors.Shell
