import AltrStream.Python.JsonText

/-! # `json.loads` on the text of a tree

The scanner reads back every syntax tree: it returns the value of the tree, with the
surrogate pairs of its strings joined, and stops right behind its text.
-/
namespace AltrStream.Python
open Foundations JsonDecoder

/-- What may stand behind a value in a JSON text. -/
def Follows (rest : List Char) : Prop :=
  ∀ c ∈ rest.head?, isSpace c = true ∨ c = ',' ∨ c = ']' ∨ c = '}'

theorem not_isDigit_of_follows {c : Char} (h : isSpace c = true ∨ c = ',' ∨ c = ']' ∨ c = '}') :
    c.isDigit = false ∧ c ≠ '.' ∧ c ≠ 'e' ∧ c ≠ 'E' := by
  have hspace : isSpace c = true → c ∈ [' ', '\t', '\n', '\r'] := fun h => by simpa [isSpace] using h
  have hmem : c ∈ [' ', '\t', '\n', '\r', ',', ']', '}'] := by
    rcases h with h | rfl | rfl | rfl
    · have := hspace h
      simp only [List.mem_cons] at this ⊢
      tauto
    all_goals simp
  clear h hspace
  revert c
  decide

/-! ### Blank space -/

theorem skipSpace_append {blanks : List Char} (h : ∀ c ∈ blanks, isSpace c = true) (text : List Char) :
    skipSpace (blanks ++ text) = skipSpace text := List.dropWhile_append_of_pos h

theorem skipSpace_cons {c : Char} (h : isSpace c = false) (rest : List Char) :
    skipSpace (c :: rest) = c :: rest := List.dropWhile_cons_of_neg (by simp [h])

/-! ### Numbers -/

/-- A run of digits ends where no digit follows. -/
theorem takeWhile_digits {digits rest : List Char} (hdigits : ∀ c ∈ digits, c.isDigit = true)
    (hrest : ∀ c ∈ rest.head?, c.isDigit = false) :
    (digits ++ rest).takeWhile Char.isDigit = digits ∧
      (digits ++ rest).dropWhile Char.isDigit = rest := by
  have hnone : rest.takeWhile Char.isDigit = [] ∧ rest.dropWhile Char.isDigit = rest := by
    cases rest with
    | nil => exact ⟨rfl, rfl⟩
    | cons c rest => simp [hrest c rfl]
  rw [List.takeWhile_append_of_pos hdigits, List.dropWhile_append_of_pos hdigits, hnone.1, hnone.2,
    List.append_nil]
  exact ⟨rfl, rfl⟩

namespace NumberText

variable (n : NumberText)

/-- No digit stands right behind the exponent or in its place. -/
theorem head_exponent {rest : List Char} (h : Follows rest) :
    ∀ c ∈ (n.exponent ++ rest).head?, c.isDigit = false ∧ c ≠ '.' := by
  intro c hc
  rcases n.exponent_digits with hnil | ⟨e, sign, digits, hexponent, he, -⟩
  · rw [hnil] at hc
    exact ⟨(not_isDigit_of_follows (h c hc)).1, (not_isDigit_of_follows (h c hc)).2.1⟩
  · rw [hexponent] at hc
    obtain rfl : e = c := by simpa using hc
    rcases he with rfl | rfl <;> decide

theorem head_pointed {rest : List Char} (h : Follows rest) :
    ∀ c ∈ (n.pointed ++ (n.exponent ++ rest)).head?, c.isDigit = false := by
  intro c hc
  unfold pointed at hc
  split_ifs at hc
  · exact (n.head_exponent h c hc).1
  · obtain rfl : '.' = c := by simpa using hc
    rfl

theorem scanDigits_whole {rest : List Char} (hrest : ∀ c ∈ rest.head?, c.isDigit = false) :
    scanDigits (n.whole ++ rest) = some (n.whole, rest) := by
  obtain ⟨hsome, hdigits, hzero⟩ := n.whole_digits
  cases hwhole : n.whole with
  | nil => exact absurd hwhole hsome
  | cons c digits =>
    rw [hwhole] at hdigits hzero
    have hread := takeWhile_digits (fun d hd => hdigits d (List.mem_cons_of_mem _ hd)) hrest
    rw [List.cons_append]
    unfold scanDigits
    split
    · next heq =>
      obtain ⟨rfl, rfl⟩ := List.cons.inj heq
      obtain rfl : digits = [] := by simpa using hzero rfl
      rfl
    · next heq =>
      obtain ⟨rfl, rfl⟩ := List.cons.inj heq
      rw [if_pos (hdigits _ List.mem_cons_self), hread.1, hread.2]
    · next heq => cases heq

/-- A number does not start with a minus twice. -/
theorem head_whole (rest : List Char) : ∃ c, (n.whole ++ rest).head? = some c ∧ c.isDigit = true := by
  obtain ⟨hsome, hdigits, -⟩ := n.whole_digits
  cases hwhole : n.whole with
  | nil => exact absurd hwhole hsome
  | cons c digits => exact ⟨c, rfl, hdigits c (by simp [hwhole])⟩

theorem scanWhole_sign {rest : List Char} (hrest : ∀ c ∈ rest.head?, c.isDigit = false) :
    scanWhole (n.sign ++ (n.whole ++ rest)) = some (n.sign ++ n.whole, rest) := by
  unfold scanWhole sign
  cases n.negative with
  | true =>
    simp [n.scanDigits_whole hrest]
  | false =>
    obtain ⟨c, hc, hdigit⟩ := n.head_whole rest
    have hminus : (n.whole ++ rest).head? ≠ some '-' := by
      rw [hc]
      rintro ⟨⟩
      cases hdigit
    simp only [Bool.false_eq_true, if_false, List.nil_append, if_neg hminus, n.scanDigits_whole hrest]

theorem scanFraction_pointed {rest : List Char}
    (hrest : ∀ c ∈ rest.head?, c.isDigit = false ∧ c ≠ '.') :
    scanFraction (n.pointed ++ rest) = (n.pointed, rest) := by
  unfold pointed
  split_ifs with hnil
  · rw [List.nil_append]
    unfold scanFraction
    split
    · exact absurd rfl (hrest '.' rfl).2
    · rfl
  · cases hfraction : n.fraction with
    | nil => exact absurd hfraction hnil
    | cons c digits =>
      have hdigits : ∀ d ∈ c :: digits, d.isDigit = true := fun d hd =>
        n.fraction_digits d (hfraction ▸ hd)
      have hread := takeWhile_digits (fun d hd => hdigits d (List.mem_cons_of_mem _ hd))
        fun d hd => (hrest d hd).1
      rw [List.cons_append, List.cons_append, scanFraction, if_pos (hdigits c List.mem_cons_self),
        hread.1, hread.2]

theorem scanExponent_exponent {rest : List Char} (hrest : Follows rest) :
    scanExponent (n.exponent ++ rest) = (n.exponent, rest) := by
  rcases n.exponent_digits with hnil | ⟨e, sign, digits, hexponent, he, hsign, hsome, hdigits⟩
  · rw [hnil, List.nil_append]
    cases rest with
    | nil => rfl
    | cons c rest =>
      have hc := not_isDigit_of_follows (hrest c rfl)
      simp [scanExponent, hc.2.2.1, hc.2.2.2]
  · have hread := takeWhile_digits hdigits fun c hc => (not_isDigit_of_follows (hrest c hc)).1
    rw [hexponent]
    cases digits with
    | nil => exact absurd rfl hsome
    | cons d digits =>
      have hd := hdigits d List.mem_cons_self
      have hnosign : d ≠ '-' ∧ d ≠ '+' := by
        constructor <;> (rintro rfl; cases hd)
      rw [List.cons_append] at hread
      rcases hsign with rfl | rfl | rfl <;> rcases he with rfl | rfl <;>
        simp [scanExponent, hnosign, hd, hread]

theorem scanNumber_text {β : Type} (u : Unicode) {rest : List Char} (hrest : Follows rest) :
    (scanNumber u (n.text ++ rest) : Option (PyValue β × List Char)) =
      (n.value u).map fun v => (v, rest) := by
  have htext : n.text ++ rest = n.sign ++ (n.whole ++ (n.pointed ++ (n.exponent ++ rest))) := by
    simp [text]
  rw [scanNumber, htext, n.scanWhole_sign (n.head_pointed hrest), value]
  simp only [Option.bind_eq_bind, Option.bind_some, n.scanFraction_pointed (n.head_exponent hrest),
    n.scanExponent_exponent hrest]
  split_ifs with hnil
  · have hwhole : n.text = n.sign ++ n.whole := by
      obtain ⟨hpointed, hexponent⟩ := List.append_eq_nil_iff.1 hnil
      rw [text, hpointed, hexponent, List.append_nil, List.append_nil]
    rw [hwhole]
    cases intOfText? u (n.sign ++ n.whole) <;> rfl
  · have hall : n.text = n.sign ++ n.whole ++ n.pointed ++ n.exponent := by simp [text]
    rw [hall]
    cases floatOfText? u (n.sign ++ n.whole ++ n.pointed ++ n.exponent) <;> rfl

/-- A number starts with a minus or a digit. -/
theorem head_text (rest : List Char) :
    ∃ c more, n.text ++ rest = c :: more ∧
      (c.isDigit = true ∨ c = '-' ∧ ∃ d ∈ more.head?, d.isDigit = true) := by
  obtain ⟨d, hd, hdigit⟩ := n.head_whole (n.pointed ++ n.exponent ++ rest)
  obtain ⟨more, hmore⟩ : ∃ more, n.whole ++ (n.pointed ++ n.exponent ++ rest) = d :: more :=
    List.head?_eq_some_iff.1 hd
  cases hsign : n.negative with
  | true =>
    refine ⟨'-', d :: more, ?_, .inr ⟨rfl, d, rfl, hdigit⟩⟩
    rw [← hmore]
    simp [text, sign, hsign]
  | false =>
    refine ⟨d, more, ?_, .inl hdigit⟩
    rw [← hmore]
    simp [text, sign, hsign]

end NumberText

/-- Neither a number nor anything else that starts so is a word. -/
theorem scanPlain_number {β : Type} {u : Unicode} {c : Char} {more : List Char}
    (h : c.isDigit = true ∨ c = '-' ∧ ∃ d ∈ more.head?, d.isDigit = true) :
    (scanPlain u (c :: more) : Option (PyValue β × List Char)) = scanNumber u (c :: more) := by
  have hnone : (words.find? fun w : List Char × PyValue β => w.1 <+: c :: more) = none := by
    rw [List.find?_eq_none]
    intro w hw
    simp only [words, List.mem_cons, List.not_mem_nil, or_false] at hw
    rw [decide_eq_true_eq]
    rcases h with hdigit | ⟨rfl, d, hd, hdigit⟩
    · rcases hw with rfl | rfl | rfl | rfl | rfl | rfl <;>
        (rw [List.cons_prefix_cons]; rintro ⟨rfl, -⟩; cases hdigit)
    · obtain ⟨more', rfl⟩ := List.head?_eq_some_iff.1 hd
      rcases hw with rfl | rfl | rfl | rfl | rfl | rfl
      iterate 5
        rw [List.cons_prefix_cons]
        rintro ⟨⟨⟩, -⟩
      rw [List.cons_prefix_cons, List.cons_prefix_cons]
      rintro ⟨-, rfl, -⟩
      cases hdigit
  rw [scanPlain, hnone]

/-! ### Strings -/

theorem scanUnits_plain {c : Char} (hplain : c ≠ '"' ∧ c ≠ '\\' ∧ 0x20 ≤ c.toNat) (rest : List Char) :
    scanUnits (c :: rest) = (scanUnits rest).bind fun read => some (c.toNat :: read.1, read.2) := by
  obtain ⟨hquote, hslash, hcontrol⟩ := hplain
  conv_lhs => unfold scanUnits
  split
  · next heq => cases heq
  · next heq => exact absurd (List.cons.inj heq).1 hquote
  · next heq => exact absurd (List.cons.inj heq).1 hslash
  · next heq => exact absurd (List.cons.inj heq).1 hslash
  · next heq =>
    obtain ⟨rfl, rfl⟩ := List.cons.inj heq
    have hallowed : ¬(c.toNat < 0x20 ∨ c = '\\') := by
      rintro (h | h)
      · omega
      · exact hslash h
    rw [if_neg hallowed]
    rfl

theorem scanUnits_escape {c char : Char} (hescape : jsonEscape? c = some char) (rest : List Char) :
    scanUnits ('\\' :: c :: rest) =
      (scanUnits rest).bind fun read => some (char.toNat :: read.1, read.2) := by
  conv_lhs => unfold scanUnits
  split
  · next heq => cases heq
  · next heq => cases heq
  · next heq =>
    obtain ⟨rfl, -⟩ := List.cons.inj (List.cons.inj heq).2
    cases hescape
  · next heq =>
    obtain ⟨rfl, rfl⟩ := List.cons.inj (List.cons.inj heq).2
    rw [hescape]
    rfl
  · next hnot heq =>
    obtain ⟨rfl, rfl⟩ := List.cons.inj heq
    exact absurd rfl (hnot c rest rfl)

theorem scanUnits_unit {a b c d : Char} {code : ℕ} (hcode : hexValue? [a, b, c, d] = some code)
    (rest : List Char) : scanUnits ('\\' :: 'u' :: a :: b :: c :: d :: rest) =
      (scanUnits rest).bind fun read => some (code :: read.1, read.2) := by
  conv_lhs => unfold scanUnits
  simp only [hcode]
  rfl

theorem scanUnits_pieces (pieces : List Piece) (rest : List Char) :
    scanUnits (pieces.flatMap Piece.text ++ '"' :: rest) = some (pieces.map Piece.code, rest) := by
  induction pieces with
  | nil => rfl
  | cons piece pieces ih =>
    rw [List.flatMap_cons, List.append_assoc, List.map_cons]
    cases piece with
    | plain c hplain =>
      change scanUnits (c :: (pieces.flatMap Piece.text ++ '"' :: rest)) = _
      rw [scanUnits_plain hplain, ih]
      rfl
    | escape c char hescape =>
      change scanUnits ('\\' :: c :: (pieces.flatMap Piece.text ++ '"' :: rest)) = _
      rw [scanUnits_escape hescape, ih]
      rfl
    | unit a b c d code hcode =>
      change scanUnits ('\\' :: 'u' :: a :: b :: c :: d :: (pieces.flatMap Piece.text ++ '"' :: rest)) = _
      rw [scanUnits_unit hcode, ih]
      rfl

theorem scanString_pieces (pieces : List Piece) (rest : List Char) :
    scanString (pieces.flatMap Piece.text ++ '"' :: rest) =
      some (joinPairs (pieces.map Piece.code), rest) := by
  rw [scanString, scanUnits_pieces]
  rfl

/-! ### Trees -/

theorem follows_blanks (blanks : Blanks) {c : Char} (hc : c = ',' ∨ c = ']' ∨ c = '}')
    (rest : List Char) : Follows (blanks.1 ++ c :: rest) := by
  obtain ⟨text, htext⟩ := blanks
  intro d hd
  cases text with
  | nil =>
    obtain rfl : c = d := by simpa using hd
    exact .inr hc
  | cons b text =>
    obtain rfl : b = d := by simpa using hd
    exact .inl (htext b List.mem_cons_self)

namespace JsonText

/-- A value starts with a character that is not blank, a bracket that closes or a byte order mark. -/
theorem head_value (t : JsonText .value) (rest : List Char) :
    ∃ c more, t.text ++ rest = c :: more ∧ isSpace c = false ∧ c ≠ ']' ∧ c ≠ '\uFEFF' := by
  cases t with
  | null => exact ⟨_, _, rfl, by decide⟩
  | bool b => cases b <;> exact ⟨_, _, rfl, by decide⟩
  | number n =>
    obtain ⟨c, more, htext, hc⟩ := n.head_text rest
    refine ⟨c, more, htext, ?_⟩
    rcases hc with hdigit | ⟨rfl, -⟩
    · refine ⟨?_, ?_, ?_⟩
      · by_contra hspace
        have hnodigit := (not_isDigit_of_follows (.inl (Bool.eq_true_of_not_eq_false hspace))).1
        rw [hdigit] at hnodigit
        cases hnodigit
      all_goals
        rintro rfl
        cases hdigit
    · decide
  | _ => exact ⟨_, _, rfl, by decide⟩

theorem skipSpace_value (blanks : Blanks) (t : JsonText .value) (rest : List Char) :
    skipSpace (blanks.1 ++ (t.text ++ rest)) = t.text ++ rest := by
  obtain ⟨c, more, htext, hspace, -⟩ := t.head_value rest
  rw [skipSpace_append blanks.2, htext, skipSpace_cons hspace]

theorem skipSpace_close (blanks : Blanks) {c : Char} (hc : c = ',' ∨ c = ']' ∨ c = '}' ∨ c = ':' ∨ c = '"')
    (rest : List Char) : skipSpace (blanks.1 ++ c :: rest) = c :: rest := by
  rw [skipSpace_append blanks.2, skipSpace_cons]
  rcases hc with rfl | rfl | rfl | rfl | rfl <;> decide

/-- What the scanner returns for a tree, and where it stops. -/
def Loaded (β : Type) (u : Unicode) : (kind : JsonKind) → JsonText kind → Prop
  | .value, t => ∀ fuel rest, t.text.length < fuel → Follows rest →
    (scanOnce u fuel (t.text ++ rest) : Option (PyValue β × List Char)) =
      (t.value u joinPairs).map fun v => (v, rest)
  | .items, t => ∀ fuel items rest, t.text.length < fuel →
    (scanItems u fuel items (skipSpace (t.text ++ rest)) : Option (PyValue β × List Char)) =
      (t.value u joinPairs).map fun more => (.list (items ++ more), rest)
  | .members, t => ∀ fuel entries rest, t.text.length < fuel →
    (scanPairs u fuel entries (skipSpace (t.text ++ rest)) : Option (PyValue β × List Char)) =
      (t.value u joinPairs).map fun more => (.dict (Dict.update entries more), rest)

section
variable {β : Type} {u : Unicode}

theorem scanOnce_plain {c : Char} (hquote : c ≠ '"') (hbrace : c ≠ '{') (hbracket : c ≠ '[')
    (fuel : ℕ) (rest : List Char) :
    (scanOnce u (fuel + 1) (c :: rest) : Option (PyValue β × List Char)) = scanPlain u (c :: rest) := by
  rw [scanOnce, if_neg hquote, if_neg hbrace, if_neg hbracket]

theorem scanOnce_number (n : NumberText) {fuel : ℕ} {rest : List Char} (hrest : Follows rest) :
    (scanOnce u (fuel + 1) (n.text ++ rest) : Option (PyValue β × List Char)) =
      (n.value u).map fun v => (v, rest) := by
  obtain ⟨c, more, htext, hc⟩ := n.head_text rest
  have hne : c ≠ '"' ∧ c ≠ '{' ∧ c ≠ '[' := by
    rcases hc with hdigit | ⟨rfl, -⟩
    · refine ⟨?_, ?_, ?_⟩ <;>
      · rintro rfl
        cases hdigit
    · decide
  have hplain : (scanPlain u (c :: more) : Option (PyValue β × List Char)) = scanNumber u (c :: more) :=
    scanPlain_number hc
  rw [htext, scanOnce_plain hne.1 hne.2.1 hne.2.2, hplain, ← htext, n.scanNumber_text u hrest]

theorem scanOnce_string (pieces : List Piece) (fuel : ℕ) (rest : List Char) :
    (scanOnce u (fuel + 1) (quoted pieces ++ rest) : Option (PyValue β × List Char)) =
      some (.str (joinPairs (pieces.map Piece.code)), rest) := by
  have htext : quoted pieces ++ rest = '"' :: (pieces.flatMap Piece.text ++ '"' :: rest) := by
    simp [quoted]
  rw [htext, scanOnce, if_pos rfl, scanString_pieces]
  rfl

theorem skipSpace_items (t : JsonText .items) (rest : List Char) :
    ∃ c more, skipSpace (t.text ++ rest) = c :: more ∧ c ≠ ']' := by
  have hvalue : ∀ (blanks : Blanks) (item : JsonText .value) (more : List Char),
      ∃ c more', skipSpace (blanks.1 ++ (item.text ++ more)) = c :: more' ∧ c ≠ ']' := by
    intro blanks item more
    obtain ⟨c, more', htext, -, hc, -⟩ := item.head_value more
    exact ⟨c, more', (skipSpace_value blanks item more).trans htext, hc⟩
  cases t with
  | lastItem before item after =>
    have h := hvalue before item (after.1 ++ ([']'] ++ rest))
    simpa [text_lastItem] using h
  | nextItem before item after more =>
    have h := hvalue before item (after.1 ++ (',' :: more.text ++ rest))
    simpa [text_nextItem] using h

theorem skipSpace_members (t : JsonText .members) (rest : List Char) :
    ∃ more, skipSpace (t.text ++ rest) = '"' :: more := by
  cases t with
  | lastMember before key colon behind item after =>
    rw [text_lastMember, quoted, List.append_assoc, List.cons_append, List.cons_append]
    exact ⟨_, skipSpace_close before (.inr (.inr (.inr (.inr rfl)))) _⟩
  | nextMember before key colon behind item after more =>
    rw [text_nextMember, quoted, List.append_assoc, List.cons_append, List.cons_append]
    exact ⟨_, skipSpace_close before (.inr (.inr (.inr (.inr rfl)))) _⟩

theorem loaded_array {items : JsonText .items} (ih : Loaded β u .items items) :
    Loaded β u .value (.array items) := by
  intro fuel rest hfuel _
  obtain ⟨c, more, hskip, hc⟩ := skipSpace_items items rest
  cases fuel with
  | zero => omega
  | succ fuel =>
    rw [text_array, List.cons_append, scanOnce, if_neg (by decide), if_neg (by decide), if_pos rfl]
    have hitems := ih fuel [] rest (by simpa [text_array] using hfuel)
    rw [hskip] at hitems ⊢
    split
    · next heq => exact absurd (List.cons.inj heq).1 hc
    · rw [hitems, value_array, Option.map_map]
      rfl

theorem loaded_object {members : JsonText .members} (ih : Loaded β u .members members) :
    Loaded β u .value (.object members) := by
  intro fuel rest hfuel _
  obtain ⟨more, hskip⟩ := skipSpace_members members rest
  cases fuel with
  | zero => omega
  | succ fuel =>
    rw [text_object, List.cons_append, scanOnce, if_neg (by decide), if_pos rfl]
    have hmembers := ih fuel [] rest (by simpa [text_object] using hfuel)
    rw [hskip] at hmembers ⊢
    split
    · next heq => cases heq
    · rw [hmembers, value_object, Option.map_map]
      rfl

theorem loaded_lastItem {before after : Blanks} {item : JsonText .value}
    (ih : Loaded β u .value item) : Loaded β u .items (.lastItem before item after) := by
  intro fuel items rest hfuel
  cases fuel with
  | zero => omega
  | succ fuel =>
    have hlength : item.text.length < fuel := by
      simp only [text_lastItem, List.length_append, List.length_cons, List.length_nil] at hfuel
      omega
    have htext : (lastItem before item after).text ++ rest =
        before.1 ++ (item.text ++ (after.1 ++ ']' :: rest)) := by simp [text_lastItem]
    rw [htext, skipSpace_value, scanItems, ih fuel _ hlength (follows_blanks after (by simp) rest),
      value_lastItem]
    cases item.value u joinPairs with
    | none => rfl
    | some v =>
      simp only [Option.map_some, Option.bind_eq_bind, Option.bind_some,
        skipSpace_close after (.inr (.inl rfl)) rest]

theorem loaded_nextItem {before after : Blanks} {item : JsonText .value} {more : JsonText .items}
    (ih : Loaded β u .value item) (ihmore : Loaded β u .items more) :
    Loaded β u .items (.nextItem before item after more) := by
  intro fuel items rest hfuel
  cases fuel with
  | zero => omega
  | succ fuel =>
    simp only [text_nextItem, List.length_append, List.length_cons] at hfuel
    have htext : (nextItem before item after more).text ++ rest =
        before.1 ++ (item.text ++ (after.1 ++ ',' :: (more.text ++ rest))) := by simp [text_nextItem]
    rw [htext, skipSpace_value, scanItems,
      ih fuel _ (by omega) (follows_blanks after (by simp) _), value_nextItem]
    cases item.value u joinPairs with
    | none => rfl
    | some v =>
      simp only [Option.map_some, Option.bind_eq_bind, Option.bind_some,
        skipSpace_close after (.inl rfl), ihmore fuel (items ++ [v]) rest (by omega), Option.map_map]
      congr 1
      funext more
      simp

theorem quoted_append (pieces : List Piece) (rest : List Char) :
    quoted pieces ++ rest = '"' :: (pieces.flatMap Piece.text ++ '"' :: rest) := by
  simp [quoted]

theorem skipSpace_colon (colon behind : Blanks) (item : JsonText .value) (rest : List Char) :
    skipSpace (colon.1 ++ ':' :: (behind.1 ++ (item.text ++ rest))) =
        ':' :: (behind.1 ++ (item.text ++ rest)) ∧
      skipSpace (behind.1 ++ (item.text ++ rest)) = item.text ++ rest :=
  ⟨skipSpace_close colon (.inr (.inr (.inr (.inl rfl)))) _, skipSpace_value behind item rest⟩

theorem loaded_lastMember {before colon behind after : Blanks} {key : List Piece}
    {item : JsonText .value} (ih : Loaded β u .value item) :
    Loaded β u .members (.lastMember before key colon behind item after) := by
  intro fuel entries rest hfuel
  cases fuel with
  | zero => omega
  | succ fuel =>
    simp only [text_lastMember, List.length_append, List.length_cons] at hfuel
    have htext : (lastMember before key colon behind item after).text ++ rest = before.1 ++
        '"' :: (key.flatMap Piece.text ++
          '"' :: (colon.1 ++ ':' :: (behind.1 ++ (item.text ++ (after.1 ++ '}' :: rest))))) := by
      simp [text_lastMember, quoted]
    obtain ⟨hcolon, hbehind⟩ := skipSpace_colon colon behind item (after.1 ++ '}' :: rest)
    rw [htext, skipSpace_close before (.inr (.inr (.inr (.inr rfl)))), scanPairs]
    simp only [scanString_pieces, Option.bind_eq_bind, Option.bind_some, hcolon, hbehind,
      ih fuel _ (by omega) (follows_blanks after (.inr (.inr rfl)) rest), value_lastMember]
    cases item.value u joinPairs with
    | none => rfl
    | some v =>
      simp only [Option.map_some, Option.bind_some,
        skipSpace_close after (.inr (.inr (.inl rfl))) rest, Dict.update_cons, Dict.update_nil]

theorem loaded_nextMember {before colon behind after : Blanks} {key : List Piece}
    {item : JsonText .value} {more : JsonText .members} (ih : Loaded β u .value item)
    (ihmore : Loaded β u .members more) :
    Loaded β u .members (.nextMember before key colon behind item after more) := by
  intro fuel entries rest hfuel
  cases fuel with
  | zero => omega
  | succ fuel =>
    simp only [text_nextMember, List.length_append, List.length_cons] at hfuel
    have htext : (nextMember before key colon behind item after more).text ++ rest = before.1 ++
        '"' :: (key.flatMap Piece.text ++ '"' :: (colon.1 ++ ':' :: (behind.1 ++
          (item.text ++ (after.1 ++ ',' :: (more.text ++ rest)))))) := by
      simp [text_nextMember, quoted]
    obtain ⟨hcolon, hbehind⟩ :=
      skipSpace_colon colon behind item (after.1 ++ ',' :: (more.text ++ rest))
    rw [htext, skipSpace_close before (.inr (.inr (.inr (.inr rfl)))), scanPairs]
    simp only [scanString_pieces, Option.bind_eq_bind, Option.bind_some, hcolon, hbehind,
      ih fuel _ (by omega) (follows_blanks after (.inl rfl) _), value_nextMember]
    cases item.value u joinPairs with
    | none => rfl
    | some v =>
      simp only [Option.map_some, Option.bind_some, skipSpace_close after (.inl rfl),
        ihmore fuel _ rest (by omega), Option.map_map]
      rfl

theorem loaded {kind : JsonKind} (t : JsonText kind) : Loaded β u kind t := by
  induction t with
  | null =>
    rintro (_ | fuel) rest hfuel -
    · omega
    · exact scanOnce_plain (by decide) (by decide) (by decide) fuel _
  | bool b =>
    rintro (_ | fuel) rest hfuel -
    · omega
    · cases b <;> exact scanOnce_plain (by decide) (by decide) (by decide) fuel _
  | number n =>
    rintro (_ | fuel) rest hfuel hrest
    · omega
    · exact scanOnce_number n hrest
  | string pieces =>
    rintro (_ | fuel) rest hfuel -
    · omega
    · exact scanOnce_string pieces fuel rest
  | emptyArray inside =>
    rintro (_ | fuel) rest hfuel -
    · omega
    · rw [text_emptyArray, List.cons_append, List.append_assoc, scanOnce, if_neg (by decide), if_neg (by decide),
        if_pos rfl, List.singleton_append, skipSpace_close inside (.inr (.inl rfl))]
      rfl
  | emptyObject inside =>
    rintro (_ | fuel) rest hfuel -
    · omega
    · rw [text_emptyObject, List.cons_append, List.append_assoc, scanOnce, if_neg (by decide), if_pos rfl,
        List.singleton_append, skipSpace_close inside (.inr (.inr (.inl rfl)))]
      rfl
  | array items ih => exact loaded_array ih
  | object members ih => exact loaded_object ih
  | lastItem before item after ih => exact loaded_lastItem ih
  | nextItem before item after more ih ihmore => exact loaded_nextItem ih ihmore
  | lastMember before key colon behind item after ih => exact loaded_lastMember ih
  | nextMember before key colon behind item after more ih ihmore => exact loaded_nextMember ih ihmore

/-- `json.loads` returns the value of the tree of its text. -/
theorem loads_text (before after : Blanks) (t : JsonText .value) :
    (loads u (before.1 ++ (t.text ++ after.1)) : Option (PyValue β)) = t.value u joinPairs := by
  obtain ⟨c, more, htext, hspace, -, hmark⟩ := t.head_value after.1
  have hhead : (before.1 ++ (t.text ++ after.1)).head? ≠ some '\uFEFF' := by
    obtain ⟨blanks, hblanks⟩ := before
    cases blanks with
    | nil => simpa [htext] using hmark
    | cons b blanks =>
      rintro ⟨⟩
      exact absurd (hblanks _ List.mem_cons_self) (by decide)
  have hfollows : Follows after.1 := fun d hd => .inl (after.2 d (List.mem_of_mem_head? hd))
  have hscan : (scanOnce u _ (t.text ++ after.1) : Option (PyValue β × List Char)) = _ :=
    loaded t (2 * (before.1 ++ (t.text ++ after.1)).length + 2) after.1
      (by simp only [List.length_append]; omega) hfollows
  rw [loads, if_neg hhead, skipSpace_value, hscan]
  have hafter : skipSpace after.1 = [] := by
    have hskip := skipSpace_append after.2 []
    rw [List.append_nil] at hskip
    exact hskip
  cases t.value u joinPairs with
  | none => rfl
  | some v => simp only [Option.map_some, hafter, if_true]

end

end JsonText

end AltrStream.Python
