import AltrStream.QueryEngine.LexerTotality
import Mathlib.Data.List.Induction

/-! # The lexer as a way to cut up a text

Between the lexemes of the tokens, cut out of the source where the tokens say,
there is only white space and comments. The lexeme of a string is cut by the
number of characters that it stands for, so this holds of the sources without an
escape sequence.
-/
namespace AltrStream.QueryEngine.Lexer
open Python

/-! ### Cutting up a text -/

/-- Line and column of the character behind a text. -/
def coordinates (before : List Char) : ℕ × ℕ :=
  (before.count '\n' + 1, (before.reverse.takeWhile (· ≠ '\n')).length + 1)

def whitespace : List Char := [' ', '\t', '\r', '\n']

/-- White space and comments, in front of the rest of a text; a comment ends with its line. -/
inductive Gap (rest : List Char) : List Char → Prop
  | nil : Gap rest []
  | space {c : Char} {gap : List Char} : c ∈ whitespace → Gap rest gap → Gap rest (c :: gap)
  | comment {text gap : List Char} : '\n' ∉ text → (∀ c ∈ (gap ++ rest).head?, c = '\n') →
    Gap rest gap → Gap rest ('/' :: '/' :: text ++ gap)

/-- The lexemes are slices of the text, in order and with gaps in between, and the tokens say where
they start; the text is what follows `before`. -/
def CutUp (before text : List Char) : List Token → Prop
  | [] => Gap [] text
  | t :: ts => ∃ gap rest, text = gap ++ (t.lexeme.toList ++ rest) ∧
    Gap (t.lexeme.toList ++ rest) gap ∧ (t.line, t.column) = coordinates (before ++ gap) ∧
    CutUp (before ++ gap ++ t.lexeme.toList) rest ts

def Lossless (source : String) (tokens : List Token) : Prop := CutUp [] source.toList tokens

/-- No literal that the loop comes to has a backslash before the next quote. -/
def WithoutEscapes (u : Unicode) (source : String) : Prop :=
  ∀ cursor, Comes u ⟨source.toList, 1, 1⟩ cursor → ∀ text, cursor.rest = '"' :: text →
    '\\' ∉ text.takeWhile (· ≠ '"')

/-! ### Coordinates -/

theorem coordinates_concat (before : List Char) (c : Char) : coordinates (before ++ [c]) =
    if c = '\n' then ((coordinates before).1 + 1, 1)
    else ((coordinates before).1, (coordinates before).2 + 1) := by
  by_cases h : c = '\n'
  · simp [coordinates, h]
  · simp [coordinates, h, List.count_append]

/-- A longer part of a text ends further down or further right. -/
theorem coordinates_lt (before : List Char) (c : Char) (text : List Char) :
    (coordinates before).1 < (coordinates (before ++ c :: text)).1 ∨
      (coordinates before).1 = (coordinates (before ++ c :: text)).1 ∧
        (coordinates before).2 < (coordinates (before ++ c :: text)).2 := by
  induction text using List.reverseRecOn with
  | nil =>
    rw [coordinates_concat]
    split_ifs
    · exact .inl (Nat.lt_succ_self _)
    · exact .inr ⟨rfl, Nat.lt_succ_self _⟩
  | append_singleton text d ih =>
    rw [← List.cons_append, ← List.append_assoc, coordinates_concat]
    split_ifs <;> dsimp only <;> omega

/-- Parts of a text that end at the same coordinates are the same. -/
theorem eq_of_coordinates {before before' text : List Char} (h : before <+: text)
    (h' : before' <+: text) (hsame : coordinates before = coordinates before') :
    before = before' := by
  have hle : ∀ {a b : List Char}, a <+: b → coordinates a = coordinates b → a = b := by
    rintro a b ⟨_ | ⟨c, tail⟩, rfl⟩ heq
    · rw [List.append_nil]
    · have hlt := coordinates_lt a c tail
      rw [← heq] at hlt
      omega
  rcases List.prefix_or_prefix_of_prefix h h' with hprefix | hprefix
  · exact hle hprefix hsame
  · exact (hle hprefix hsame.symm).symm

/-! ### Positions -/

/-- From a position to another over a text. -/
structure Reads (cursor : Cursor) (text : List Char) (stop : Cursor) : Prop where
  rest : cursor.rest = text ++ stop.rest
  coordinates : ∀ before, (cursor.line, cursor.column) = coordinates before →
    (stop.line, stop.column) = coordinates (before ++ text)

theorem Reads.refl (cursor : Cursor) : Reads cursor [] cursor :=
  ⟨rfl, fun before h => by rwa [List.append_nil]⟩

theorem Reads.trans {cursor middle stop : Cursor} {text text' : List Char}
    (h : Reads cursor text middle) (h' : Reads middle text' stop) :
    Reads cursor (text ++ text') stop := by
  refine ⟨?_, fun before hbefore => ?_⟩
  · rw [h.rest, h'.rest, List.append_assoc]
  · rw [← List.append_assoc]
    exact h'.coordinates _ (h.coordinates before hbefore)

theorem Reads.slice {cursor stop : Cursor} {text : List Char} (h : Reads cursor text stop) :
    cursor.slice stop = text := by
  rw [Cursor.slice, h.rest, List.length_append, Nat.add_sub_cancel, List.take_left']
  rfl

theorem reads_advance {cursor : Cursor} {c : Char} {rest : List Char} (h : cursor.rest = c :: rest) :
    Reads cursor [c] cursor.advance := by
  obtain ⟨_, line, column⟩ := cursor
  obtain rfl := h
  refine ⟨by simp, fun before hbefore => ?_⟩
  rw [coordinates_concat, ← hbefore, Cursor.advance]
  split_ifs <;> rfl

theorem reads_advance_advance {cursor : Cursor} {c d : Char} {rest : List Char}
    (h : cursor.rest = c :: d :: rest) : Reads cursor [c, d] cursor.advance.advance :=
  (reads_advance h).trans (reads_advance (by rw [rest_advance, h, List.tail_cons]))

theorem reads_skip (keep : Char → List Char → Bool) (cursor : Cursor) :
    Reads cursor (cursor.slice (cursor.skip keep)) (cursor.skip keep) := by
  have hgeneral : ∀ (text : List Char) (cursor : Cursor), cursor.rest = text →
      ∃ read, Reads cursor read (Cursor.advanceWhile keep text cursor) := by
    intro text
    induction text with
    | nil => exact fun cursor _ => ⟨[], .refl cursor⟩
    | cons c text ih =>
      intro cursor h
      rw [Cursor.advanceWhile]
      split
      · obtain ⟨read, hread⟩ := ih cursor.advance (by rw [rest_advance, h, List.tail_cons])
        exact ⟨c :: read, (reads_advance h).trans hread⟩
      · exact ⟨[], .refl cursor⟩
  obtain ⟨read, hread⟩ := hgeneral cursor.rest cursor rfl
  rwa [Cursor.skip, hread.slice]

/-! ### Strings -/

/-- What stands between the quotes of a literal, with a number of escape sequences. -/
inductive Inside : ℕ → List Char → Prop
  | nil : Inside 0 []
  | escape {n : ℕ} {body : List Char} (c : Char) : Inside n body → Inside (n + 1) ('\\' :: c :: body)
  | plain {n : ℕ} {c : Char} {body : List Char} : c ≠ '"' → c ≠ '\\' → Inside n body →
    Inside n (c :: body)

theorem Inside.length_le {n : ℕ} {body : List Char} (h : Inside n body) : n ≤ body.length := by
  induction h with
  | nil => exact le_rfl
  | escape c _ ih => exact (Nat.succ_le_succ ih).trans (Nat.le_succ _)
  | plain _ _ _ ih => exact ih.trans (Nat.le_succ _)

/-- A literal has an escape sequence if there is a backslash before the next quote. -/
theorem Inside.eq_zero_iff {n : ℕ} {body : List Char} (h : Inside n body) (rest : List Char) :
    n = 0 ↔ '\\' ∉ (body ++ '"' :: rest).takeWhile (· ≠ '"') := by
  induction h with
  | nil => simp
  | escape c _ _ => simp
  | @plain n c body hquote hback _ ih =>
    rw [ih, List.cons_append, List.takeWhile_cons, if_pos (by simpa using hquote), List.mem_cons,
      not_or]
    exact (and_iff_right (Ne.symm hback)).symm

/-- A literal ends with the first quote that no backslash escapes. -/
theorem Inside.unique {n n' : ℕ} {body body' rest rest' : List Char} (h : Inside n body)
    (h' : Inside n' body') (heq : body ++ '"' :: rest = body' ++ '"' :: rest') : body = body' := by
  induction h generalizing n' body' with
  | nil =>
    cases h' with
    | nil => rfl
    | escape c _ => cases heq
    | plain hquote _ _ =>
      cases heq
      exact absurd rfl hquote
  | escape c _ ih =>
    cases h' with
    | nil => cases heq
    | escape c' h' =>
      simp only [List.cons_append, List.cons.injEq, true_and] at heq
      obtain ⟨rfl, heq⟩ := heq
      rw [ih h' heq]
    | plain _ hback _ => exact absurd (List.cons.inj heq).1.symm hback
  | plain hquote hback _ ih =>
    cases h' with
    | nil =>
      cases heq
      exact absurd rfl hquote
    | escape c' h' => exact absurd (List.cons.inj heq).1 hback
    | plain _ _ h' =>
      simp only [List.cons_append, List.cons.injEq] at heq
      obtain ⟨rfl, heq⟩ := heq
      rw [ih h' heq]

/-- Behind a quote inside a literal the literal goes on, for the quote is escaped. -/
theorem Inside.of_append {n : ℕ} {body : List Char} (h : Inside n body) {before after : List Char}
    (heq : body = before ++ '"' :: after) : ∃ n', Inside n' after := by
  induction h generalizing before with
  | nil => simp at heq
  | @escape n body c h ih =>
    match before, heq with
    | [], heq => cases heq
    | [_], heq =>
      cases heq
      exact ⟨n, h⟩
    | _ :: _ :: before, heq =>
      simp only [List.cons_append, List.cons.injEq] at heq
      exact ih heq.2.2
  | plain hquote _ _ ih =>
    match before, heq with
    | [], heq =>
      cases heq
      exact absurd rfl hquote
    | _ :: before, heq =>
      simp only [List.cons_append, List.cons.injEq] at heq
      exact ih heq.2

theorem scanChars_inside (start : Cursor) {text : List Char} {cursor stop : Cursor}
    {chars : List Char} (h : cursor.rest = text)
    (hscan : scanChars start text cursor = .ok (chars, stop)) :
    ∃ n body, Inside n body ∧ Reads cursor (body ++ ['"']) stop ∧
      chars.length + n = body.length := by
  fun_induction scanChars start text cursor generalizing chars with
  | case1 | case3 | case4 => cases hscan
  | case2 rest cursor =>
    cases hscan
    exact ⟨0, [], .nil, reads_advance h, rfl⟩
  | case5 escaped rest cursor ih =>
    have hrest : cursor.advance.advance.rest = rest := by simp [h]
    cases hr : scanChars start rest cursor.advance.advance with
    | error e =>
      rw [hr] at hscan
      cases hscan
    | ok r =>
      obtain ⟨chars', stop'⟩ := r
      rw [hr] at hscan
      cases hscan
      obtain ⟨n, body, hinside, hreads, hlength⟩ := ih hrest hr
      refine ⟨n + 1, _, .escape escaped hinside, ?_, ?_⟩
      · exact (reads_advance_advance h).trans hreads
      · simp only [List.length_cons]
        omega
  | case6 c rest cursor hquote _ hend hback ih =>
    have hrest : cursor.advance.rest = rest := by simp [h]
    cases hr : scanChars start rest cursor.advance with
    | error e =>
      rw [hr] at hscan
      cases hscan
    | ok r =>
      obtain ⟨chars', stop'⟩ := r
      rw [hr] at hscan
      cases hscan
      obtain ⟨n, body, hinside, hreads, hlength⟩ := ih hrest hr
      have hplain : c ≠ '\\' := by
        rintro rfl
        cases rest with
        | nil => exact hend rfl rfl
        | cons d rest => exact hback d rest rfl rfl
      refine ⟨n, _, .plain hquote hplain hinside, ?_, ?_⟩
      · exact (reads_advance h).trans hreads
      · simp only [List.length_cons]
        omega

/-- The lexeme of a string lacks as many characters at its start as it has escape sequences. -/
theorem scanString_inside {cursor stop : Cursor} {text : List Char} {t : Token}
    (h : cursor.rest = '"' :: text) (hscan : scanString cursor = .ok (t, stop)) :
    ∃ n body, Inside n body ∧ Reads cursor ('"' :: (body ++ ['"'])) stop ∧
      t.lexeme.toList = ('"' :: (body ++ ['"'])).drop n ∧ t.line = cursor.line ∧
      t.column = cursor.column := by
  have hrest : cursor.advance.rest = text := by simp [h]
  unfold scanString at hscan
  dsimp only at hscan
  rw [hrest] at hscan
  cases hr : scanChars cursor text cursor.advance with
  | error e =>
    rw [hr] at hscan
    cases hscan
  | ok r =>
    obtain ⟨chars, stop'⟩ := r
    rw [hr] at hscan
    cases hscan
    obtain ⟨n, body, hinside, hreads, hlength⟩ := scanChars_inside cursor hrest hr
    have hread := (reads_advance h).trans hreads
    rw [List.singleton_append] at hread
    refine ⟨n, body, hinside, hread, ?_, rfl, rfl⟩
    have hdropped : ('"' :: (body ++ ['"'])).length - (chars.length + 2) = n := by
      simp only [List.length_cons, List.length_append, List.length_nil]
      omega
    rw [token, String.toList_ofList, hread.slice, hdropped]

/-- With an escape sequence the lexeme is not the text at the position of the token. -/
theorem Inside.not_prefix {n : ℕ} {body : List Char} (h : Inside n body) (hn : n ≠ 0)
    {rest : List Char} :
    ¬ ('"' :: (body ++ ['"'])).drop n <+: '"' :: (body ++ '"' :: rest) := by
  rintro ⟨tail, htail⟩
  obtain ⟨n, rfl⟩ := Nat.exists_eq_succ_of_ne_zero hn
  have hle : n < body.length := h.length_le
  rw [List.drop_succ_cons, List.drop_append_of_le_length hle.le, List.drop_eq_getElem_cons hle,
    List.cons_append, List.cons_append, List.cons.injEq, List.append_assoc] at htail
  obtain ⟨hquote, htail⟩ := htail
  have hsplit : body = body.take n ++ '"' :: body.drop (n + 1) := by
    rw [← hquote, List.getElem_cons_drop, List.take_append_drop]
  obtain ⟨n', hafter⟩ := h.of_append hsplit
  have hsame := congrArg List.length (hafter.unique h htail)
  rw [List.length_drop] at hsame
  omega

/-! ### Iterations -/

/-- The token stands at the position, and its lexeme is the text up to another. -/
structure Slices (cursor : Cursor) (t : Token) (stop : Cursor) : Prop where
  line : t.line = cursor.line
  column : t.column = cursor.column
  reads : Reads cursor t.lexeme.toList stop

theorem slices_token {cursor stop : Cursor} {type : TokenType} {lexeme : List Char}
    (h : Reads cursor lexeme stop) : Slices cursor (token cursor type lexeme) stop :=
  ⟨rfl, rfl, by rwa [token, String.toList_ofList]⟩

section
variable {u : Unicode}

theorem of_converted {α : Type} {r : Except String α} {f : α → Token} {stop stop' : Cursor}
    {t : Token} (h : (do
      let value ← converted r
      return (f value, stop)) = (.ok (t, stop') : Except PyError (Token × Cursor))) :
    (∃ a, t = f a) ∧ stop' = stop := by
  cases r with
  | error message => cases h
  | ok a =>
    cases h
    exact ⟨⟨a, rfl⟩, rfl⟩

theorem slices_scanNumber {cursor stop : Cursor} {t : Token}
    (h : scanNumber u cursor = .ok (t, stop)) : Slices cursor t stop := by
  have hdigits := reads_skip (fun c _ => u.isdigit c) cursor
  unfold scanNumber at h
  dsimp only at h
  split at h
  · obtain ⟨⟨value, rfl⟩, rfl⟩ := of_converted h
    exact slices_token hdigits
  · rename_i hdot
    split at h
    · cases h
    · obtain ⟨⟨value, rfl⟩, rfl⟩ := of_converted h
      have hreads := (hdigits.trans (reads_advance hdot)).trans
        (reads_skip (fun c _ => u.isdigit c) (skipDigits u cursor).advance)
      exact slices_token (by rwa [← hreads.slice] at hreads)
  · obtain ⟨⟨value, rfl⟩, rfl⟩ := of_converted h
    exact slices_token hdigits

theorem slices_scanTemporalLiteral {cursor stop : Cursor} {rest : List Char} {t : Token}
    (hrest : cursor.rest = '@' :: rest) (h : scanTemporalLiteral u cursor = .ok (t, stop)) :
    Slices cursor t stop := by
  unfold scanTemporalLiteral at h
  dsimp only at h
  split at h
  · cases h
  · split at h
    · cases h
      exact slices_token ((reads_advance hrest).trans (reads_skip isTemporalChar cursor.advance))
    · cases h

theorem slices_scanIdentifierOrKeyword (cursor : Cursor) :
    Slices cursor (scanIdentifierOrKeyword u cursor).1 (scanIdentifierOrKeyword u cursor).2 := by
  have hreads := reads_skip (fun c _ => u.isalnum c || c = '_') cursor
  unfold scanIdentifierOrKeyword
  dsimp only
  split
  · exact slices_token hreads
  · exact slices_token hreads

/-- What an iteration does: it reads a gap, a lexeme or a literal. -/
inductive Stepped (cursor : Cursor) : Option Token → Cursor → Prop
  | gap {text : List Char} {stop : Cursor} : Reads cursor text stop →
    (∀ gap rest, stop.rest = gap ++ rest → Gap rest gap → Gap rest (text ++ gap)) →
    Stepped cursor none stop
  | slice {t : Token} {stop : Cursor} : Slices cursor t stop → cursor.rest.head? ≠ some '"' →
    Stepped cursor (some t) stop
  | literal {n : ℕ} {body : List Char} {t : Token} {stop : Cursor} : Inside n body →
    Reads cursor ('"' :: (body ++ ['"'])) stop →
    t.lexeme.toList = ('"' :: (body ++ ['"'])).drop n → t.line = cursor.line →
    t.column = cursor.column → Stepped cursor (some t) stop

theorem map_some_eq_ok {r : Except PyError (Token × Cursor)} {t : Option Token} {stop : Cursor}
    (h : r.map (fun (t, stop) => (some t, stop)) = .ok (t, stop)) :
    ∃ t', r = .ok (t', stop) ∧ t = some t' := by
  cases r with
  | error e => cases h
  | ok r =>
    cases h
    exact ⟨_, rfl, rfl⟩

theorem stepped_comment {cursor : Cursor} {rest : List Char} (h : cursor.rest = '/' :: '/' :: rest) :
    Stepped cursor none (cursor.advance.advance.skip fun c _ => c ≠ '\n') := by
  have hrest : cursor.advance.advance.rest = rest := by simp [h]
  have hskipped := rest_skip (fun c => decide (c ≠ '\n')) cursor.advance.advance
  have hreads := reads_skip (fun c _ => decide (c ≠ '\n')) cursor.advance.advance
  have hslice := slice_skip (fun c => decide (c ≠ '\n')) cursor.advance.advance
  refine .gap ((reads_advance_advance h).trans hreads) fun gap rest hstop hgap => ?_
  refine .comment ?_ ?_ hgap
  · rw [hslice]
    intro hmem
    simpa using List.mem_takeWhile_imp hmem
  · intro c hc
    rw [← hstop, hskipped] at hc
    have hkept := List.head?_dropWhile_not (fun c => decide (c ≠ '\n')) cursor.advance.advance.rest
    rw [Option.mem_def.1 hc] at hkept
    simpa using hkept

theorem stepped {cursor stop : Cursor} {c : Char} {rest : List Char} {t : Option Token}
    (h : cursor.rest = c :: rest) (hstep : step u c rest cursor = .ok (t, stop)) :
    Stepped cursor t stop := by
  unfold step at hstep
  split at hstep
  · rename_i hspace
    cases hstep
    exact .gap (reads_advance h) fun gap rest _ hgap => .space hspace hgap
  rename_i hspace
  split at hstep
  · rename_i hcomment
    cases hstep
    obtain ⟨rfl, hslash⟩ := hcomment
    obtain ⟨tail, rfl⟩ := List.head?_eq_some_iff.1 hslash
    exact stepped_comment h
  split at hstep
  · rename_i type hdouble
    cases hstep
    obtain ⟨d, tail, rfl, hquote⟩ : ∃ d tail, rest = d :: tail ∧ c ≠ '"' := by
      unfold doubleToken? at hdouble
      split at hdouble
      · exact ⟨_, _, rfl, by decide⟩
      · exact ⟨_, _, rfl, by decide⟩
      · exact ⟨_, _, rfl, by decide⟩
      · exact ⟨_, _, rfl, by decide⟩
      · cases hdouble
    have hreads := reads_advance_advance h
    refine .slice (slices_token (by rwa [← hreads.slice] at hreads)) ?_
    simpa [h] using hquote
  · rename_i type hsingle
    cases hstep
    refine .slice (slices_token (reads_advance h)) ?_
    rintro hquote
    rw [h, List.head?_cons, Option.some.injEq] at hquote
    subst hquote
    cases hsingle
  split at hstep
  · rename_i hquote
    subst hquote
    obtain ⟨t', hscan, rfl⟩ := map_some_eq_ok hstep
    obtain ⟨n, body, hinside, hreads, hlexeme, hline, hcolumn⟩ := scanString_inside h hscan
    exact .literal hinside hreads hlexeme hline hcolumn
  rename_i hquote
  have hhead : cursor.rest.head? ≠ some '"' := by simpa [h] using hquote
  split at hstep
  · rename_i hat
    subst hat
    obtain ⟨t', hscan, rfl⟩ := map_some_eq_ok hstep
    exact .slice (slices_scanTemporalLiteral h hscan) hhead
  split at hstep
  · obtain ⟨t', hscan, rfl⟩ := map_some_eq_ok hstep
    exact .slice (slices_scanNumber hscan) hhead
  split at hstep
  · cases hstep
    exact .slice (slices_scanIdentifierOrKeyword cursor) hhead
  · cases hstep

/-! ### Runs -/

/-- What the loop returns from a position with something left. -/
theorem scan_eq_ok {fuel : ℕ} {cursor : Cursor} {c : Char} {rest : List Char}
    {tokens : List Token} (hrest : cursor.rest = c :: rest)
    (h : scan u (fuel + 1) cursor = .ok tokens) : ∃ t stop tokens',
      step u c rest cursor = .ok (t, stop) ∧ scan u fuel stop = .ok tokens' ∧
        tokens = t.toList ++ tokens' := by
  rw [scan, hrest] at h
  cases hstep : step u c rest cursor with
  | error e =>
    simp only [hstep] at h
    cases h
  | ok r =>
    obtain ⟨t, stop⟩ := r
    simp only [hstep] at h
    cases hscan : scan u fuel stop with
    | error e =>
      change (scan u fuel stop >>= _) = _ at h
      rw [hscan] at h
      cases h
    | ok tokens' =>
      change (scan u fuel stop >>= _) = _ at h
      rw [hscan] at h
      cases h
      exact ⟨t, stop, tokens', rfl, hscan, rfl⟩

theorem CutUp.prepend {before text rest : List Char} {tokens : List Token}
    (hgap : ∀ gap rest', rest = gap ++ rest' → Gap rest' gap → Gap rest' (text ++ gap))
    (h : CutUp (before ++ text) rest tokens) : CutUp before (text ++ rest) tokens := by
  cases tokens with
  | nil => exact hgap rest [] (List.append_nil rest).symm h
  | cons t tokens =>
    obtain ⟨gap, rest', rfl, hmiddle, hcoordinates, hcut⟩ := h
    refine ⟨text ++ gap, rest', (List.append_assoc ..).symm, hgap gap _ rfl hmiddle, ?_, ?_⟩
    · rw [hcoordinates, List.append_assoc]
    · rwa [← List.append_assoc]

/-- From a position on, if no literal that the loop comes to has an escape sequence. -/
theorem cutUp_scan (hu : ∀ c, u.isalpha c = true → u.isalnum c = true) {fuel : ℕ}
    {cursor : Cursor} {before : List Char} {tokens : List Token} (hfuel : cursor.rest.length ≤ fuel)
    (hbefore : (cursor.line, cursor.column) = coordinates before)
    (hplain : ∀ stop, Comes u cursor stop → ∀ text, stop.rest = '"' :: text →
      '\\' ∉ text.takeWhile (· ≠ '"'))
    (h : scan u fuel cursor = .ok tokens) : CutUp before cursor.rest tokens := by
  have hend : ∀ {cursor : Cursor} {before : List Char},
      (cursor.line, cursor.column) = coordinates before → cursor.rest = [] →
      CutUp before cursor.rest [eofToken cursor] := by
    intro cursor before hbefore hrest
    refine ⟨[], [], by simp [hrest, eofToken], .nil, by simpa [eofToken] using hbefore, ?_⟩
    exact Gap.nil
  induction fuel generalizing cursor before tokens with
  | zero =>
    cases h
    exact hend hbefore (List.length_eq_zero_iff.1 (Nat.le_zero.1 hfuel))
  | succ fuel ih =>
    cases hrest : cursor.rest with
    | nil =>
      rw [scan, hrest] at h
      cases h
      rw [← hrest]
      exact hend hbefore hrest
    | cons c rest =>
      obtain ⟨t, stop, tokens', hstep, hscan, rfl⟩ := scan_eq_ok hrest h
      have hprogress := step_steps u hu hrest
      rw [hstep] at hprogress
      have hlt : stop.rest.length < cursor.rest.length := hprogress.2.2
      have hcut : ∀ {text}, Reads cursor text stop → CutUp (before ++ text) stop.rest tokens' := by
        intro text hreads
        refine ih (by omega) (hreads.coordinates before hbefore) (fun stop' hstop' => ?_) hscan
        exact hplain stop' (comes_iff.2 (.inr ⟨c, rest, t, stop, hrest, hstep, hstop'⟩))
      have hslice : ∀ {t}, Slices cursor t stop →
          CutUp before cursor.rest ((some t).toList ++ tokens') := by
        intro t hslices
        refine ⟨[], stop.rest, hslices.reads.rest, .nil, ?_, ?_⟩
        · rw [List.append_nil, ← hbefore, hslices.line, hslices.column]
        · rw [List.append_nil]
          exact hcut hslices.reads
      rw [← hrest]
      cases stepped hrest hstep with
      | gap hreads hgap =>
        rw [hreads.rest]
        exact (hcut hreads).prepend hgap
      | slice hslices _ => exact hslice hslices
      | @literal n body t _ hinside hreads hlexeme hline hcolumn =>
        have hquote : cursor.rest = '"' :: (body ++ '"' :: stop.rest) := by simp [hreads.rest]
        obtain rfl := (hinside.eq_zero_iff stop.rest).2 (hplain cursor .start _ hquote)
        exact hslice ⟨hline, hcolumn, by rwa [hlexeme]⟩

theorem reads_of_stepped {cursor stop : Cursor} {t : Option Token} (h : Stepped cursor t stop) :
    ∃ text, Reads cursor text stop := by
  cases h with
  | gap hreads _ => exact ⟨_, hreads⟩
  | slice hslices _ => exact ⟨_, hslices.reads⟩
  | literal _ hreads _ _ _ => exact ⟨_, hreads⟩

theorem reads_of_comes {start cursor : Cursor} (h : Comes u start cursor) :
    ∃ text, Reads start text cursor := by
  induction h with
  | start => exact ⟨[], .refl start⟩
  | step _ hrest hstep ih =>
    obtain ⟨before, hbefore⟩ := ih
    obtain ⟨text, htext⟩ := reads_of_stepped (stepped hrest hstep)
    exact ⟨before ++ text, hbefore.trans htext⟩

/-- The tokens of the iterations are those that the loop returns. -/
theorem mem_of_comes (hu : ∀ c, u.isalpha c = true → u.isalnum c = true) {fuel : ℕ}
    {start cursor : Cursor} {tokens : List Token} (hfuel : start.rest.length ≤ fuel)
    (h : scan u fuel start = .ok tokens) (hcomes : Comes u start cursor) {c : Char}
    {rest : List Char} (hrest : cursor.rest = c :: rest) :
    ∃ t stop, step u c rest cursor = .ok (t, stop) ∧ ∀ t' ∈ t, t' ∈ tokens := by
  induction fuel generalizing start tokens with
  | zero =>
    have hnil := List.length_eq_zero_iff.1 (Nat.le_zero.1 hfuel)
    rcases comes_iff.1 hcomes with rfl | ⟨_, _, _, _, hfirst, -, -⟩
    · cases hrest.symm.trans hnil
    · cases hfirst.symm.trans hnil
  | succ fuel ih =>
    rcases comes_iff.1 hcomes with rfl | ⟨d, tail, t, next, hfirst, hnext, hlater⟩
    · obtain ⟨t, stop, tokens', hstep, -, rfl⟩ := scan_eq_ok hrest h
      exact ⟨t, stop, hstep, fun t' ht' => List.mem_append_left _ (Option.mem_toList.2 ht')⟩
    · obtain ⟨t', stop, tokens', hstep, hscan, rfl⟩ := scan_eq_ok hfirst h
      obtain ⟨rfl, rfl⟩ := Prod.mk.inj (Except.ok.inj (hnext.symm.trans hstep))
      have hprogress := step_steps u hu hfirst
      rw [hstep] at hprogress
      have hlt : next.rest.length < start.rest.length := hprogress.2.2
      obtain ⟨r, stop', hstep', hmem⟩ := ih (by omega) hscan hlater
      exact ⟨r, stop', hstep', fun t' ht' => List.mem_append_right _ (hmem t' ht')⟩

/-- A token of a text that is cut up starts where it says. -/
theorem CutUp.slice {before text : List Char} {tokens : List Token} (h : CutUp before text tokens)
    {t : Token} (ht : t ∈ tokens) : ∃ front rest,
      before ++ text = front ++ (t.lexeme.toList ++ rest) ∧ (t.line, t.column) = coordinates front := by
  induction tokens generalizing before text with
  | nil => cases ht
  | cons t' tokens ih =>
    obtain ⟨gap, rest, rfl, -, hcoordinates, hcut⟩ := h
    rcases List.mem_cons.1 ht with rfl | ht
    · exact ⟨before ++ gap, rest, (List.append_assoc ..).symm, hcoordinates⟩
    · obtain ⟨front, rest', hsplit, hfront⟩ := ih hcut ht
      exact ⟨front, rest', by rw [← hsplit]; simp, hfront⟩

theorem withoutEscapes_of_lossless (hu : ∀ c, u.isalpha c = true → u.isalnum c = true)
    {source : String} {tokens : List Token} (h : tokenize u source = .ok tokens)
    (hlossless : Lossless source tokens) : WithoutEscapes u source := by
  intro cursor hcomes text hquote
  have hfuel : (⟨source.toList, 1, 1⟩ : Cursor).rest.length ≤ source.length :=
    String.length_toList.le
  obtain ⟨before, hbefore⟩ := reads_of_comes hcomes
  obtain ⟨t, stop, hstep, hmem⟩ := mem_of_comes hu hfuel h hcomes hquote
  cases stepped hquote hstep with
  | gap hreads _ =>
    -- a quote starts no gap
    rw [step] at hstep
    simp [doubleToken?, singleToken?] at hstep
    obtain ⟨_, -, heq⟩ := map_some_eq_ok hstep
    cases heq
  | slice _ hhead => simp [hquote] at hhead
  | @literal n body t _ hinside hreads hlexeme hline hcolumn =>
    have htext : text = body ++ '"' :: stop.rest := by
      have hrest := hquote.symm.trans hreads.rest
      simpa using hrest
    rw [htext, ← hinside.eq_zero_iff stop.rest]
    by_contra hn
    obtain ⟨front, rest, hsplit, hfront⟩ := hlossless.slice (hmem t rfl)
    have hposition := hbefore.coordinates [] rfl
    have hsource : source.toList = before ++ cursor.rest := hbefore.rest
    have heq : front = before := by
      refine @eq_of_coordinates _ _ source.toList ⟨_, hsplit.symm⟩ ⟨_, hsource.symm⟩ ?_
      rw [← hfront, hline, hcolumn]
      exact hposition
    rw [List.nil_append, hsource, heq, List.append_cancel_left_eq, hquote, htext, hlexeme] at hsplit
    exact hinside.not_prefix hn ⟨rest, hsplit.symm⟩

/-- The lexer is lossless on a source that it accepts exactly if no literal has an escape
sequence. -/
theorem tokenize_lossless_iff (hu : ∀ c, u.isalpha c = true → u.isalnum c = true) {source : String}
    {tokens : List Token} (h : tokenize u source = .ok tokens) :
    Lossless source tokens ↔ WithoutEscapes u source := by
  refine ⟨withoutEscapes_of_lossless hu h, fun hplain => ?_⟩
  exact @cutUp_scan u hu source.length ⟨source.toList, 1, 1⟩ [] tokens String.length_toList.le rfl
    hplain h

end

theorem ascii_isalnum {c : Char} (h : Unicode.ascii.isalpha c = true) :
    Unicode.ascii.isalnum c = true := by
  simpa [Unicode.ascii, Char.isAlphanum] using Or.inl h

/-- A statement over two lines, with a comment and a string. -/
theorem lossless_statement :
    Lossless "GET a // all\n\"b\"" [⟨.get, 1, 1, "GET"⟩, ⟨.identifier "a", 1, 5, "a"⟩,
      ⟨.string "b", 2, 1, "\"b\""⟩, ⟨.eof, 2, 4, ""⟩] ↔ WithoutEscapes .ascii "GET a // all\n\"b\"" :=
  tokenize_lossless_iff (fun _ => ascii_isalnum) (by decide)

/-- The lexeme of a literal with an escaped quote is cut after its opening quote. -/
theorem not_lossless_escape : ∃ tokens, tokenize .ascii "\"\\\"\"" = .ok tokens ∧
    ¬ Lossless "\"\\\"\"" tokens := by
  refine ⟨[⟨.string "\"", 1, 1, "\\\"\""⟩, ⟨.eof, 1, 5, ""⟩], by decide, fun h => ?_⟩
  have hplain : WithoutEscapes .ascii "\"\\\"\"" :=
    withoutEscapes_of_lossless (fun _ => ascii_isalnum) (by decide) h
  exact hplain _ .start _ rfl (by decide)

end AltrStream.QueryEngine.Lexer
