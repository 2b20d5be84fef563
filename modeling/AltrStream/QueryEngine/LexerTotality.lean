import AltrStream.QueryEngine.Lexer
import Mathlib.Data.List.TakeWhile

/-! # Which texts the lexer answers

Every iteration of the lexer's loop consumes a character, so it ends with the end of
the text or with an exception. The exception is a lexical error unless a number is
not convertible: `str.isdigit` knows more digits than `int` and `float`, and `int`
refuses more than 4300 of them.
-/
namespace AltrStream.QueryEngine.Lexer
open Python

/-- `int` reads the digits. -/
def IntegerConverts (u : Unicode) (digits : List Char) : Prop :=
  digits.length ≤ 4300 ∧ ∀ c ∈ digits, u.isDecimal c

/-- The number at the start of a text can be converted, or lacks the digits of its fraction. -/
def NumberConverts (u : Unicode) (text : List Char) : Prop :=
  let digits := text.takeWhile u.isdigit
  match text.dropWhile u.isdigit with
  | '.' :: '.' :: _ => IntegerConverts u digits
  | '.' :: rest =>
    let fraction := rest.takeWhile u.isdigit
    fraction = [] ∨ ∀ c ∈ digits ++ fraction, u.isDecimal c
  | _ => IntegerConverts u digits

/-- The text starts with a number: no case before it in the loop applies. -/
def StartsNumber (u : Unicode) : List Char → Prop
  | [] => False
  | c :: rest => c ∉ [' ', '\t', '\r', '\n'] ∧ ¬(c = '/' ∧ rest.head? = some '/') ∧
    doubleToken? c rest = none ∧ singleToken? c = none ∧ c ≠ '"' ∧ c ≠ '@' ∧ u.isdigit c = true

/-- The positions that the loop comes to. -/
inductive Comes (u : Unicode) (start : Cursor) : Cursor → Prop
  | start : Comes u start start
  | step {cursor stop : Cursor} {c : Char} {rest : List Char} {t : Option Token} :
    Comes u start cursor → cursor.rest = c :: rest → step u c rest cursor = .ok (t, stop) →
    Comes u start stop

/-- A list of tokens whose only EOF token is the last one, or a lexical error. -/
def Answers : Except PyError (List Token) → Prop
  | .ok tokens => ∃ body last, tokens = body ++ [last] ∧ last.type = .eof ∧ ∀ t ∈ body, t.type ≠ .eof
  | .error e => e.kind = .lexError

/-! ### Cursors -/

@[simp] theorem rest_advance (cursor : Cursor) : cursor.advance.rest = cursor.rest.tail := by
  obtain ⟨_ | ⟨c, rest⟩, line, column⟩ := cursor
  · rfl
  · rw [Cursor.advance]
    split <;> rfl

theorem rest_advanceWhile_suffix {keep : Char → List Char → Bool} {text : List Char} {cursor : Cursor}
    (h : cursor.rest = text) : (Cursor.advanceWhile keep text cursor).rest <:+ text := by
  induction text generalizing cursor with
  | nil => exact ⟨[], h⟩
  | cons c text ih =>
    rw [Cursor.advanceWhile]
    split
    · exact (ih (by rw [rest_advance, h, List.tail_cons])).trans (List.suffix_cons c text)
    · exact ⟨[], h⟩

theorem rest_skip_suffix (keep : Char → List Char → Bool) (cursor : Cursor) :
    (cursor.skip keep).rest <:+ cursor.rest := rest_advanceWhile_suffix rfl

/-- A character that is kept is consumed. -/
theorem length_skip_lt {keep : Char → List Char → Bool} {cursor : Cursor} {c : Char}
    {rest : List Char} (h : cursor.rest = c :: rest) (hkeep : keep c rest = true) :
    (cursor.skip keep).rest.length < cursor.rest.length := by
  have htail : cursor.advance.rest = rest := by rw [rest_advance, h, List.tail_cons]
  have hsuffix := (@rest_advanceWhile_suffix keep _ _ htail).length_le
  rw [Cursor.skip, h, Cursor.advanceWhile, if_pos hkeep, List.length_cons]
  omega

section
variable (u : Unicode)

theorem rest_skip (keep : Char → Bool) (cursor : Cursor) :
    (cursor.skip fun c _ => keep c).rest = cursor.rest.dropWhile keep := by
  have hgeneral : ∀ (text : List Char) (cursor : Cursor), cursor.rest = text →
      (Cursor.advanceWhile (fun c _ => keep c) text cursor).rest = text.dropWhile keep := by
    intro text
    induction text with
    | nil => exact fun cursor h => h
    | cons c text ih =>
      intro cursor h
      rw [Cursor.advanceWhile, List.dropWhile_cons]
      split
      · exact ih _ (by rw [rest_advance, h, List.tail_cons])
      · exact h
  exact hgeneral _ cursor rfl

theorem slice_skip (keep : Char → Bool) (cursor : Cursor) :
    cursor.slice (cursor.skip fun c _ => keep c) = cursor.rest.takeWhile keep := by
  have hlength : cursor.rest.length - (cursor.rest.dropWhile keep).length =
      (cursor.rest.takeWhile keep).length := by
    have happend := congrArg List.length
      (List.takeWhile_append_dropWhile (p := keep) (l := cursor.rest))
    rw [List.length_append] at happend
    omega
  rw [Cursor.slice, rest_skip, hlength]
  exact (List.prefix_iff_eq_take.1 (List.takeWhile_prefix _)).symm

theorem rest_skipDigits (cursor : Cursor) :
    (skipDigits u cursor).rest = cursor.rest.dropWhile u.isdigit := rest_skip u.isdigit cursor

theorem slice_skipDigits (cursor : Cursor) :
    cursor.slice (skipDigits u cursor) = cursor.rest.takeWhile u.isdigit := slice_skip u.isdigit cursor

/-! ### Numbers -/

theorem int_eq_ok_iff (digits : List Char) :
    (∃ n, u.int digits = .ok n) ↔ IntegerConverts u digits := by
  have hinit := List.takeWhile_prefix (l := digits) u.isDecimal
  have hall : (digits.takeWhile u.isDecimal).length = digits.length ↔
      ∀ c ∈ digits, u.isDecimal c := by
    refine ⟨fun h => ?_, fun h => by rw [List.takeWhile_eq_self_iff.2 h]⟩
    exact List.takeWhile_eq_self_iff.1 (hinit.eq_of_length h)
  unfold Unicode.int IntegerConverts
  dsimp only
  rw [← hall]
  have hle := hinit.length_le
  split
  · exact iff_of_false (fun ⟨_, h⟩ => nomatch h) fun ⟨hlength, _⟩ => by omega
  · split
    · rename_i hfew hdecimal
      exact iff_of_true ⟨_, rfl⟩ ⟨by omega, hdecimal⟩
    · rename_i hdecimal
      exact iff_of_false (fun ⟨_, h⟩ => nomatch h) fun h => hdecimal h.2

theorem float_eq_ok_iff (digits fraction : List Char) :
    (∃ x, u.float digits fraction = .ok x) ↔ ∀ c ∈ digits ++ fraction, u.isDecimal c := by
  unfold Unicode.float
  rw [← List.all_eq_true]
  split
  · rename_i h
    exact iff_of_true ⟨_, rfl⟩ h
  · rename_i h
    exact iff_of_false (fun ⟨_, h⟩ => nomatch h) h

/-- What a scanner gives: a token and the position behind it, or an exception that is lexical
exactly under a condition. -/
def Scans (cursor : Cursor) (converts : Prop) (r : Except PyError (Token × Cursor)) : Prop :=
  match r with
  | .ok (t, stop) => converts ∧ t.type ≠ .eof ∧ stop.rest.length < cursor.rest.length
  | .error e => e.kind = .lexError ↔ converts

/-- A conversion and the token that it makes. -/
theorem scans_converted {cursor stop : Cursor} {α : Type} {r : Except String α} {f : α → Token}
    {converts : Prop} (hconverts : (∃ a, r = .ok a) ↔ converts) (hf : ∀ a, (f a).type ≠ .eof)
    (hstop : stop.rest.length < cursor.rest.length) :
    Scans cursor converts (do
      let value ← converted r
      return (f value, stop)) := by
  cases r with
  | ok a => exact ⟨hconverts.1 ⟨a, rfl⟩, hf a, hstop⟩
  | error message =>
    exact iff_of_false (fun h => nomatch h) fun h => nomatch (hconverts.2 h)

section
variable {u} {text tail : List Char}

theorem numberConverts_range (h : text.dropWhile u.isdigit = '.' :: '.' :: tail) :
    NumberConverts u text ↔ IntegerConverts u (text.takeWhile u.isdigit) := by
  unfold NumberConverts
  rw [h]
  exact Iff.rfl

theorem numberConverts_fraction (h : text.dropWhile u.isdigit = '.' :: tail)
    (hdots : ∀ tail', tail = '.' :: tail' → False) :
    NumberConverts u text ↔ tail.takeWhile u.isdigit = [] ∨
      ∀ c ∈ text.takeWhile u.isdigit ++ tail.takeWhile u.isdigit, u.isDecimal c := by
  unfold NumberConverts
  rw [h]
  split <;> simp_all

theorem numberConverts_integer (h : ∀ tail, text.dropWhile u.isdigit = '.' :: tail → False) :
    NumberConverts u text ↔ IntegerConverts u (text.takeWhile u.isdigit) := by
  unfold NumberConverts
  dsimp only
  split
  · rfl
  · rename_i hdot
    exact (h _ hdot).elim
  · rfl

end

theorem scanNumber_scans {cursor : Cursor} {c : Char} {rest : List Char}
    (h : cursor.rest = c :: rest) (hdigit : u.isdigit c = true) :
    Scans cursor (NumberConverts u cursor.rest) (scanNumber u cursor) := by
  have hlt : (cursor.rest.dropWhile u.isdigit).length < cursor.rest.length := by
    have hsuffix := (List.dropWhile_suffix (l := rest) u.isdigit).length_le
    rw [h, List.dropWhile_cons, if_pos hdigit, List.length_cons]
    omega
  have hinteger : Scans cursor (IntegerConverts u (cursor.rest.takeWhile u.isdigit)) (do
      let value ← converted (u.int (cursor.rest.takeWhile u.isdigit))
      return (token cursor (.integer value) (cursor.rest.takeWhile u.isdigit),
        skipDigits u cursor)) :=
    scans_converted (int_eq_ok_iff u _) (fun _ h => nomatch h) (by rwa [rest_skipDigits])
  unfold scanNumber
  dsimp only
  rw [slice_skipDigits, rest_skipDigits]
  split
  · rename_i hdots
    rwa [numberConverts_range hdots]
  · rename_i fraction hdots hdot
    rw [numberConverts_fraction hdot hdots]
    have hfraction : (skipDigits u cursor).advance.rest = fraction := by
      rw [rest_advance, rest_skipDigits, hdot, List.tail_cons]
    rw [slice_skipDigits, hfraction]
    split
    · rename_i hempty
      exact iff_of_true rfl (.inl (List.isEmpty_iff.1 hempty))
    · rename_i hdigits
      refine scans_converted ((float_eq_ok_iff u _ _).trans ?_) (fun _ h => nomatch h) ?_
      · exact (or_iff_right fun hnil => hdigits (by rw [hnil]; rfl)).symm
      · have hsuffix := (List.dropWhile_suffix (l := fraction) u.isdigit).length_le
        rw [rest_skipDigits, hfraction]
        rw [hdot, List.length_cons] at hlt
        omega
  · rename_i hnone
    rwa [numberConverts_integer hnone]

/-! ### The other scanners -/

/-- A string ends behind its closing quote. -/
theorem scanChars_scans (start : Cursor) {text : List Char} {cursor : Cursor}
    (h : cursor.rest = text) :
    match scanChars start text cursor with
    | .ok (_, stop) => stop.rest.length < text.length
    | .error e => e.kind = .lexError := by
  fun_induction scanChars start text cursor with
  | case1 | case3 | case4 => rfl
  | case2 rest cursor => simp [h]
  | case5 escaped rest cursor ih =>
    have hrest : cursor.advance.advance.rest = rest := by simp [h]
    have hscan := ih hrest
    cases hr : scanChars start rest cursor.advance.advance with
    | error e => simpa [hr] using hscan
    | ok r =>
      rw [hr] at hscan
      simp only [List.length_cons]
      exact Nat.lt_succ_of_lt (Nat.lt_succ_of_lt hscan)
  | case6 c rest cursor _ _ _ _ ih =>
    have hrest : cursor.advance.rest = rest := by simp [h]
    have hscan := ih hrest
    cases hr : scanChars start rest cursor.advance with
    | error e => simpa [hr] using hscan
    | ok r =>
      rw [hr] at hscan
      simp only [List.length_cons]
      exact Nat.lt_succ_of_lt hscan

theorem scanString_scans {cursor : Cursor} {c : Char} {rest : List Char}
    (h : cursor.rest = c :: rest) : Scans cursor True (scanString cursor) := by
  have hrest : cursor.advance.rest = rest := by simp [h]
  have hscan := scanChars_scans cursor hrest
  unfold scanString
  dsimp only
  rw [hrest]
  cases hr : scanChars cursor rest cursor.advance with
  | error e =>
    rw [hr] at hscan
    exact iff_of_true hscan trivial
  | ok r =>
    rw [hr] at hscan
    refine ⟨trivial, (fun h => nomatch h), ?_⟩
    rw [h, List.length_cons]
    exact Nat.lt_succ_of_lt hscan

theorem scanTemporalLiteral_scans {cursor : Cursor} {c : Char} {rest : List Char}
    (h : cursor.rest = c :: rest) : Scans cursor True (scanTemporalLiteral u cursor) := by
  have hsuffix := (rest_skip_suffix isTemporalChar cursor.advance).length_le
  unfold scanTemporalLiteral
  dsimp only
  split
  · exact iff_of_true rfl trivial
  · split
    · refine ⟨trivial, (fun h => nomatch h), ?_⟩
      rw [rest_advance, h, List.tail_cons] at hsuffix
      rw [h, List.length_cons]
      exact Nat.lt_succ_of_le hsuffix
    · exact iff_of_true rfl trivial

theorem reservedKeywords_ne_eof {name : String} {type : TokenType}
    (h : reservedKeywords.lookup name = some type) : type ≠ .eof := by
  have hall : ∀ entry ∈ reservedKeywords, entry.2 ≠ .eof := by decide
  obtain ⟨before, after, hsplit, -⟩ := List.lookup_eq_some_iff.1 h
  exact hall (name, type) (by rw [hsplit]; simp)

theorem scanIdentifierOrKeyword_ne_eof (cursor : Cursor) :
    (scanIdentifierOrKeyword u cursor).1.type ≠ .eof := by
  unfold scanIdentifierOrKeyword
  dsimp only
  split
  · rename_i type hlookup
    exact reservedKeywords_ne_eof hlookup
  · exact fun h => nomatch h

theorem scanIdentifierOrKeyword_scans {cursor : Cursor} {c : Char} {rest : List Char}
    (h : cursor.rest = c :: rest) (hname : u.isalnum c = true ∨ c = '_') :
    Scans cursor True (.ok (scanIdentifierOrKeyword u cursor)) := by
  have hlt := @length_skip_lt (fun c _ => u.isalnum c || c = '_') _ _ _ h (by simpa using hname)
  refine ⟨trivial, scanIdentifierOrKeyword_ne_eof u cursor, ?_⟩
  split
  · exact hlt
  · exact hlt

/-! ### The loop -/

/-- What an iteration gives: it consumes a character, or raises an exception that is lexical
exactly under a condition. -/
def Steps (cursor : Cursor) (converts : Prop) (r : Except PyError (Option Token × Cursor)) : Prop :=
  match r with
  | .ok (t, stop) => converts ∧ (∀ t' ∈ t, t'.type ≠ .eof) ∧ stop.rest.length < cursor.rest.length
  | .error e => e.kind = .lexError ↔ converts

theorem Steps.of_scans {cursor : Cursor} {converts : Prop} {r : Except PyError (Token × Cursor)}
    (h : Scans cursor converts r) : Steps cursor converts (r.map fun (t, stop) => (some t, stop)) := by
  cases r with
  | error e => exact h
  | ok r => exact ⟨h.1, fun t' ht' => Option.mem_some.1 ht' ▸ h.2.1, h.2.2⟩

theorem doubleToken?_ne_eof {c : Char} {rest : List Char} {type : TokenType}
    (h : doubleToken? c rest = some type) : type ≠ .eof := by
  unfold doubleToken? at h
  split at h <;> cases h <;> exact fun heof => nomatch heof

theorem singleToken?_ne_eof {c : Char} {type : TokenType} (h : singleToken? c = some type) :
    type ≠ .eof := by
  unfold singleToken? at h
  split at h <;> cases h <;> exact fun heof => nomatch heof

/-- An iteration raises no other exception unless it comes to a number that does not convert. -/
theorem step_steps (hu : ∀ c, u.isalpha c = true → u.isalnum c = true) {cursor : Cursor} {c : Char}
    {rest : List Char} (h : cursor.rest = c :: rest) :
    Steps cursor (StartsNumber u cursor.rest → NumberConverts u cursor.rest)
      (step u c rest cursor) := by
  have hother : ∀ {r}, ¬ StartsNumber u cursor.rest → Steps cursor True r →
      Steps cursor (StartsNumber u cursor.rest → NumberConverts u cursor.rest) r := by
    intro r hnot hr
    rwa [eq_true fun hstarts => absurd hstarts hnot]
  have hadvance : cursor.advance.rest = rest := by simp [h]
  unfold step
  split
  · rename_i hspace
    exact hother (by rw [h]; exact fun hstarts => hstarts.1 hspace)
      ⟨trivial, (fun _ ht => nomatch ht), by simp [h]⟩
  rename_i hspace
  split
  · rename_i hcomment
    refine hother (by rw [h]; exact fun hstarts => hstarts.2.1 hcomment)
      ⟨trivial, (fun _ ht => nomatch ht), ?_⟩
    have hsuffix := (rest_skip_suffix (fun c _ => c ≠ '\n') cursor.advance.advance).length_le
    rw [rest_advance, hadvance] at hsuffix
    rw [h, List.length_cons]
    exact Nat.lt_succ_of_le (hsuffix.trans (List.tail_suffix rest).length_le)
  rename_i hcomment
  split
  · rename_i type hdouble
    refine hother (by rw [h]; exact fun hstarts => nomatch hdouble.symm.trans hstarts.2.2.1)
      ⟨trivial, fun t' ht' => ?_, ?_⟩
    · exact Option.mem_some.1 ht' ▸ doubleToken?_ne_eof hdouble
    · rw [rest_advance, hadvance, h, List.length_cons]
      exact Nat.lt_succ_of_le (List.tail_suffix rest).length_le
  · rename_i type hsingle
    refine hother (by rw [h]; exact fun hstarts => nomatch hsingle.symm.trans hstarts.2.2.2.1)
      ⟨trivial, fun t' ht' => ?_, by simp [h]⟩
    exact Option.mem_some.1 ht' ▸ singleToken?_ne_eof hsingle
  · rename_i hdouble hsingle
    split
    · rename_i hquote
      exact hother (by rw [h]; exact fun hstarts => hstarts.2.2.2.2.1 hquote)
        (.of_scans (scanString_scans h))
    split
    · rename_i hat
      exact hother (by rw [h]; exact fun hstarts => hstarts.2.2.2.2.2.1 hat)
        (.of_scans (scanTemporalLiteral_scans u h))
    split
    · rename_i hquote hat hdigit
      have hstarts : StartsNumber u cursor.rest := by
        rw [h]
        exact ⟨hspace, hcomment, hdouble, hsingle, hquote, hat, hdigit⟩
      rw [forall_prop_of_true hstarts]
      exact .of_scans (scanNumber_scans u h hdigit)
    have hdigitless : ∀ hdigit : ¬ u.isdigit c = true, ¬ StartsNumber u cursor.rest := by
      intro hdigit hstarts
      rw [h] at hstarts
      exact hdigit hstarts.2.2.2.2.2.2
    split
    · rename_i hdigit hname
      have hkept : u.isalnum c = true ∨ c = '_' := by
        simp only [Bool.or_eq_true, decide_eq_true_eq] at hname
        exact hname.imp_left (hu c)
      exact hother (hdigitless hdigit)
        (.of_scans (r := .ok (scanIdentifierOrKeyword u cursor))
          (scanIdentifierOrKeyword_scans u h hkept))
    · rename_i hdigit _
      exact hother (hdigitless hdigit) (iff_of_true rfl trivial)

/-- The token of an iteration in front of those of the later ones. -/
theorem answers_prepend {t : Option Token} (ht : ∀ t' ∈ t, t'.type ≠ .eof)
    {r : Except PyError (List Token)} :
    Answers (do
      let tokens ← r
      return t.toList ++ tokens) ↔ Answers r := by
  cases r with
  | error e => exact Iff.rfl
  | ok tokens =>
    have htoList : ∀ t' ∈ t.toList, t'.type ≠ .eof := fun t' h => ht t' (Option.mem_toList.1 h)
    change (∃ body last, t.toList ++ tokens = body ++ [last] ∧ _) ↔ ∃ body last, _
    rcases List.eq_nil_or_concat tokens with rfl | ⟨init, last, rfl⟩
    · constructor
      · rintro ⟨body, last, hbody, heof, -⟩
        exact absurd heof (htoList last (by simpa using congrArg (last ∈ ·) hbody))
      · rintro ⟨body, last, hbody, -⟩
        simp at hbody
    · rw [List.concat_eq_append, ← List.append_assoc]
      constructor
      · rintro ⟨body, last', hbody, heof, hne⟩
        obtain ⟨rfl, hlast⟩ := List.append_inj' hbody rfl
        cases hlast
        exact ⟨init, last, rfl, heof, fun t' h => hne t' (List.mem_append_right _ h)⟩
      · rintro ⟨body, last', hbody, heof, hne⟩
        obtain ⟨rfl, hlast⟩ := List.append_inj' hbody rfl
        cases hlast
        exact ⟨t.toList ++ init, last, rfl, heof, List.forall_mem_append.2 ⟨htoList, hne⟩⟩

theorem scanString_type {cursor stop : Cursor} {t : Token} (h : scanString cursor = .ok (t, stop)) :
    ∃ s, t.type = .string s := by
  unfold scanString at h
  dsimp only at h
  cases hchars : scanChars cursor cursor.advance.rest cursor.advance with
  | error e =>
    rw [hchars] at h
    cases h
  | ok r =>
    rw [hchars] at h
    cases h
    exact ⟨_, rfl⟩

theorem scanTemporalLiteral_type {cursor stop : Cursor} {t : Token}
    (h : scanTemporalLiteral u cursor = .ok (t, stop)) : ∃ d, t.type = .temporalLiteral d := by
  unfold scanTemporalLiteral at h
  dsimp only at h
  split at h
  · cases h
  · split at h
    · cases h
      exact ⟨_, rfl⟩
    · cases h

/-- Where the token of an iteration comes from. -/
theorem step_cases {cursor stop : Cursor} {c : Char} {rest : List Char} {t : Token}
    (h : step u c rest cursor = .ok (some t, stop)) :
    doubleToken? c rest = some t.type ∨ singleToken? c = some t.type ∨
      scanString cursor = .ok (t, stop) ∨ scanTemporalLiteral u cursor = .ok (t, stop) ∨
      (u.isdigit c = true ∧ scanNumber u cursor = .ok (t, stop)) ∨
      scanIdentifierOrKeyword u cursor = (t, stop) := by
  have hscan : ∀ {r : Except PyError (Token × Cursor)},
      r.map (fun (t, stop) => (some t, stop)) = .ok (some t, stop) → r = .ok (t, stop) := by
    intro r heq
    cases r with
    | error e => cases heq
    | ok r =>
      cases heq
      rfl
  unfold step at h
  split at h
  · cases h
  split at h
  · cases h
  split at h
  · rename_i hdouble
    cases h
    exact .inl hdouble
  · rename_i hsingle
    cases h
    exact .inr (.inl hsingle)
  split at h
  · exact .inr (.inr (.inl (hscan h)))
  split at h
  · exact .inr (.inr (.inr (.inl (hscan h))))
  split at h
  · rename_i hdigit
    exact .inr (.inr (.inr (.inr (.inl ⟨hdigit, hscan h⟩))))
  split at h
  · cases h
    exact .inr (.inr (.inr (.inr (.inr rfl))))
  · cases h

/-- An iteration gives no EOF token. -/
theorem step_ne_eof {cursor stop : Cursor} {c : Char} {rest : List Char} {t : Token}
    (h : cursor.rest = c :: rest) (hstep : step u c rest cursor = .ok (some t, stop)) :
    t.type ≠ .eof := by
  rcases step_cases u hstep with hdouble | hsingle | hscan | hscan | ⟨hdigit, hscan⟩ | hscan
  · exact doubleToken?_ne_eof hdouble
  · exact singleToken?_ne_eof hsingle
  · have hscans := scanString_scans h
    rw [hscan] at hscans
    exact hscans.2.1
  · have hscans := scanTemporalLiteral_scans u h
    rw [hscan] at hscans
    exact hscans.2.1
  · have hscans := scanNumber_scans u h hdigit
    rw [hscan] at hscans
    exact hscans.2.1
  · have hname := scanIdentifierOrKeyword_ne_eof u cursor
    rwa [hscan] at hname

/-- What holds of the token of every iteration holds of the tokens of a run. -/
theorem scan_forall {P : TokenType → Prop} (heof : P .eof)
    (hstep : ∀ c rest cursor t stop, step u c rest cursor = .ok (some t, stop) → P t.type)
    {fuel : ℕ} {cursor : Cursor} {tokens : List Token} (h : scan u fuel cursor = .ok tokens) :
    ∀ t ∈ tokens, P t.type := by
  have hlast : ∀ cursor : Cursor, ∀ t ∈ [eofToken cursor], P t.type := by
    intro cursor t ht
    rwa [List.mem_singleton.1 ht]
  induction fuel generalizing cursor tokens with
  | zero =>
    cases h
    exact hlast cursor
  | succ fuel ih =>
    unfold scan at h
    split at h
    · cases h
      exact hlast cursor
    · rename_i c rest hrest
      cases hrun : step u c rest cursor with
      | error e =>
        rw [hrun] at h
        cases h
      | ok r =>
        obtain ⟨t, stop⟩ := r
        rw [hrun] at h
        cases hscan : scan u fuel stop with
        | error e =>
          change (scan u fuel stop >>= _) = _ at h
          rw [hscan] at h
          cases h
        | ok tokens' =>
          change (scan u fuel stop >>= _) = _ at h
          rw [hscan] at h
          cases h
          refine List.forall_mem_append.2 ⟨fun t' ht' => ?_, ih hscan⟩
          rw [Option.mem_def.1 (Option.mem_toList.1 ht')] at hrun
          exact hstep _ _ _ _ _ hrun

/-- The tokens that the loop returns end with the only EOF token. -/
theorem scan_closed {fuel : ℕ} {cursor : Cursor} {tokens : List Token}
    (h : scan u fuel cursor = .ok tokens) : Answers (.ok tokens) := by
  induction fuel generalizing cursor tokens with
  | zero =>
    cases h
    exact ⟨[], _, rfl, rfl, fun _ ht => nomatch ht⟩
  | succ fuel ih =>
    unfold scan at h
    split at h
    · cases h
      exact ⟨[], _, rfl, rfl, fun _ ht => nomatch ht⟩
    · rename_i c rest hrest
      cases hstep : step u c rest cursor with
      | error e =>
        rw [hstep] at h
        cases h
      | ok r =>
        obtain ⟨t, stop⟩ := r
        rw [hstep] at h
        rw [← h]
        refine (answers_prepend fun t' ht' => ?_).2 ?_
        · rw [Option.mem_def.1 ht'] at hstep
          exact step_ne_eof u hrest hstep
        · cases hscan : scan u fuel stop with
          | error e =>
            change (scan u fuel stop >>= _) = _ at h
            rw [hscan] at h
            cases h
          | ok tokens' => exact ih hscan

theorem tokenize_closed {source : String} {tokens : List Token} (h : tokenize u source = .ok tokens) :
    ∃ body last, tokens = body ++ [last] ∧ last.type = .eof ∧ ∀ t ∈ body, t.type ≠ .eof :=
  scan_closed u h

/-- The positions behind the first iteration. -/
theorem comes_iff {u : Unicode} {cursor stop : Cursor} :
    Comes u cursor stop ↔ stop = cursor ∨ ∃ c rest t next, cursor.rest = c :: rest ∧
      step u c rest cursor = .ok (t, next) ∧ Comes u next stop := by
  constructor
  · intro h
    induction h with
    | start => exact .inl rfl
    | step hcomes hrest hstep ih =>
      refine .inr ?_
      rcases ih with rfl | ⟨c, rest, t, next, hfirst, hnext, hlater⟩
      · exact ⟨_, _, _, _, hrest, hstep, .start⟩
      · exact ⟨c, rest, t, next, hfirst, hnext, hlater.step hrest hstep⟩
  · rintro (rfl | ⟨c, rest, t, next, hfirst, hnext, hlater⟩)
    · exact .start
    · induction hlater with
      | start => exact Comes.start.step hfirst hnext
      | step _ hrest hstep ih => exact ih.step hrest hstep

/-- More iterations than there are characters change nothing. -/
theorem scan_fuel (hu : ∀ c, u.isalpha c = true → u.isalnum c = true) {fuel fuel' : ℕ}
    {cursor : Cursor} (hfuel : cursor.rest.length ≤ fuel) (hfuel' : cursor.rest.length ≤ fuel') :
    scan u fuel cursor = scan u fuel' cursor := by
  have hend : ∀ {cursor : Cursor} (fuel : ℕ), cursor.rest = [] →
      scan u fuel cursor = .ok [eofToken cursor] := by
    intro cursor fuel hrest
    cases fuel with
    | zero => rfl
    | succ fuel => rw [scan, hrest]
  induction fuel generalizing cursor fuel' with
  | zero =>
    have hrest := List.length_eq_zero_iff.1 (Nat.le_zero.1 hfuel)
    rw [hend _ hrest, hend _ hrest]
  | succ fuel ih =>
    cases hrest : cursor.rest with
    | nil => rw [hend _ hrest, hend _ hrest]
    | cons c rest =>
      rw [hrest, List.length_cons] at hfuel hfuel'
      obtain ⟨fuel', rfl⟩ := Nat.exists_eq_add_of_le' (Nat.le_of_add_left_le hfuel')
      have hstep := step_steps u hu hrest
      rw [scan, scan, hrest]
      dsimp only
      cases hr : step u c rest cursor with
      | error e => rfl
      | ok r =>
        obtain ⟨t, stop⟩ := r
        rw [hr] at hstep
        have hlt := hstep.2.2
        rw [hrest, List.length_cons] at hlt
        have htail := @ih fuel' stop (by omega) (by omega)
        exact congrArg (fun tokens => (do
          let tokens ← tokens
          return t.toList ++ tokens : Except PyError (List Token))) htail

/-- A run from a position is answered exactly if every number that it comes to converts. -/
theorem scan_answers_iff (hu : ∀ c, u.isalpha c = true → u.isalnum c = true) {fuel : ℕ}
    {cursor : Cursor} (hfuel : cursor.rest.length ≤ fuel) :
    Answers (scan u fuel cursor) ↔ ∀ stop, Comes u cursor stop → StartsNumber u stop.rest →
      NumberConverts u stop.rest := by
  have hend : ∀ {cursor : Cursor}, cursor.rest = [] → (Answers (.ok [eofToken cursor]) ↔
      ∀ stop, Comes u cursor stop → StartsNumber u stop.rest → NumberConverts u stop.rest) := by
    intro cursor hrest
    refine iff_of_true ⟨[], eofToken cursor, rfl, rfl, fun _ h => nomatch h⟩ fun stop hstop => ?_
    rw [(comes_iff.1 hstop).resolve_right (by simp [hrest]), hrest]
    exact False.elim
  induction fuel generalizing cursor with
  | zero => exact hend (List.length_eq_zero_iff.1 (Nat.le_zero.1 hfuel))
  | succ fuel ih =>
    rw [scan]
    split
    · rename_i hrest
      exact hend hrest
    · rename_i c rest hrest
      have hstep := step_steps u hu hrest
      cases hr : step u c rest cursor with
      | error e =>
        rw [hr] at hstep
        refine Iff.trans hstep ⟨fun hconverts stop hstop => ?_, fun hall => hall cursor .start⟩
        rcases comes_iff.1 hstop with rfl | ⟨c', rest', t, next, hfirst, hnext, -⟩
        · exact hconverts
        · rw [hrest] at hfirst
          cases hfirst
          cases hr.symm.trans hnext
      | ok r =>
        obtain ⟨t, stop⟩ := r
        rw [hr] at hstep
        obtain ⟨hconverts, hne, hlt⟩ := hstep
        refine (answers_prepend hne).trans ((ih (by omega)).trans ⟨fun hall stop' hstop' => ?_,
          fun hall stop' hstop' => hall stop' (comes_iff.2 (.inr ⟨c, rest, t, stop, hrest, hr, hstop'⟩))⟩)
        rcases comes_iff.1 hstop' with rfl | ⟨c', rest', t', next, hfirst, hnext, hlater⟩
        · exact hconverts
        · rw [hrest] at hfirst
          cases hfirst
          cases hr.symm.trans hnext
          exact hall stop' hlater

/-- The lexer ends on the text, within as many iterations as it has characters, and returns tokens
of which only the last one is EOF or raises a lexical error. -/
def Total (source : String) : Prop :=
  (∀ fuel ≥ source.length, scan u fuel ⟨source.toList, 1, 1⟩ = tokenize u source) ∧
    Answers (tokenize u source)

/-- The lexer is total on a text exactly if every number that it comes to converts. -/
theorem tokenize_total_iff (hu : ∀ c, u.isalpha c = true → u.isalnum c = true) (source : String) :
    Total u source ↔ ∀ cursor, Comes u ⟨source.toList, 1, 1⟩ cursor →
      StartsNumber u cursor.rest → NumberConverts u cursor.rest := by
  have hlength : (⟨source.toList, 1, 1⟩ : Cursor).rest.length ≤ source.length :=
    String.length_toList.le
  rw [Total, tokenize, ← scan_answers_iff u hu hlength]
  exact and_iff_right fun fuel hfuel => scan_fuel u hu (hlength.trans hfuel) hlength

end

/-- `int` refuses 4301 digits. -/
theorem not_total_digits : ¬ Total .ascii (String.ofList (List.replicate 4301 '1')) := by
  obtain ⟨n, hn, hmany⟩ : ∃ n, 4301 = n + 1 ∧ 4300 ≤ n := ⟨4300, rfl, le_rfl⟩
  rw [hn]
  intro h
  have hone : ∀ c ∈ List.replicate (n + 1) '1', c = '1' := fun c hc => List.eq_of_mem_replicate hc
  have hconverts := (tokenize_total_iff .ascii (fun c hc => by
    simpa [Unicode.ascii, Char.isAlphanum] using .inl hc) _).1 h _ .start
  rw [String.toList_ofList] at hconverts
  have hdrop : (List.replicate (n + 1) '1').dropWhile Unicode.ascii.isdigit = [] :=
    List.dropWhile_eq_nil_iff.2 fun c hc => hone c hc ▸ rfl
  have htake : (List.replicate (n + 1) '1').takeWhile Unicode.ascii.isdigit =
      List.replicate (n + 1) '1' := List.takeWhile_eq_self_iff.2 fun c hc => hone c hc ▸ rfl
  rw [numberConverts_integer (by simp [hdrop]), htake, IntegerConverts,
    List.length_replicate] at hconverts
  have hstarts : StartsNumber .ascii (List.replicate (n + 1) '1') := by
    rw [List.replicate_succ]
    exact ⟨by decide, (fun h => absurd h.1 (by decide)), rfl, rfl, by decide, by decide, rfl⟩
  have hfew := (hconverts hstarts).1
  omega

/-- `str.isdigit` holds of a superscript two, which `int` refuses. -/
theorem not_total_superscript :
    ¬ Total { Unicode.ascii with isdigit := fun c => c.isDigit || c = '²' }
      "GET users WHERE { age = ² };" := by
  intro h
  have hraises : ∀ r : Except PyError (List Token), (match r with
      | .error e => decide (e.kind = .valueError)
      | .ok _ => false) = true → ¬ Answers r := by
    rintro (e | tokens) hvalue hanswers
    · exact nomatch (of_decide_eq_true hvalue).symm.trans hanswers
    · cases hvalue
  exact hraises _ (by decide) h.2

end AltrStream.QueryEngine.Lexer
