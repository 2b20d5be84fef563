import AltrStream.Domain.QueryValidation

/-! # The statements of a query

The lexical grammar that the docstring of `split_sql_statements` names: literals with
doubled quotes, dollar quotes, comments to the end of a line and comments that do not
nest. The statements of a text are its pieces between semicolons that have a token.
-/
namespace AltrStream.Domain
open Python

/-- One lexical element of a query, with its characters. -/
inductive SqlElement where
  | code (c : Char)
  /-- The `$` of a dollar tag inside an identifier, as in `a$b$`. -/
  | innerDollar
  | quoted (text : List Char)
  | lineComment (text : List Char)
  | blockComment (text : List Char)
  | semicolon
  deriving DecidableEq

namespace SqlElement

def text : SqlElement → List Char
  | code c => [c]
  | innerDollar => ['$']
  | quoted t | lineComment t | blockComment t => t
  | semicolon => [';']

def isToken : SqlElement → Bool
  | code c => !isspace c
  | innerDollar | quoted _ => true
  | lineComment _ | blockComment _ | semicolon => false

/-- Whether an identifier goes on after the element, when one went on before it or not. -/
def continues (before : Bool) : SqlElement → Bool
  | code c => isTagStart c || 128 ≤ c.toNat || (before && (c.isDigit || c = '$'))
  | innerDollar => true
  | quoted _ | lineComment _ | blockComment _ | semicolon => false

end SqlElement

/-- The characters through the first `stop`. -/
def through (stop : List Char) : List Char → Option (List Char)
  | [] => none
  | c :: rest => if stop <+: c :: rest then some stop else (through stop rest).map (c :: ·)

/-- The characters through the closing quote of a literal. -/
def throughQuote (q : Char) : List Char → Option (List Char)
  | [] => none
  | [c] => if c = q then some [q] else none
  | c :: d :: rest =>
    if c = q then if d = q then (throughQuote q rest).map (q :: q :: ·) else some [q]
    else (throughQuote q (d :: rest)).map (c :: ·)

/-- The element at `c`; none for a literal or comment that is not closed. -/
def nextElement (continues : Bool) (c : Char) (rest : List Char) : Option SqlElement :=
  if c = '-' ∧ rest.head? = some '-' then
    some (.lineComment (c :: rest.takeWhile (· ≠ '\n')))
  else if c = '/' ∧ rest.head? = some '*' then
    (through ['*', '/'] rest.tail).map fun body => .blockComment (c :: '*' :: body)
  else if c = '\'' ∨ c = '"' then (throughQuote c rest).map fun body => .quoted (c :: body)
  else if c = '$' then
    match dollarTag? rest with
    | none => some (.code c)
    | some tag =>
      if continues then some .innerDollar
      else (through tag (rest.drop (tag.length - 1))).map fun body => .quoted (tag ++ body)
  else if c = ';' then some .semicolon
  else some (.code c)

/-- The elements of a text of which the first `skip` characters are read already. -/
def elementsFrom : Bool → ℕ → List Char → Option (List SqlElement)
  | _, _, [] => some []
  | continues, skip + 1, _ :: rest => elementsFrom continues skip rest
  | continues, 0, c :: rest => do
    let element ← nextElement continues c rest
    let others ← elementsFrom (element.continues continues) (element.text.length - 1) rest
    return element :: others

/-- A text over the grammar, as its elements. -/
def elements (sql : List Char) : Option (List SqlElement) := elementsFrom false 0 sql

def textOf (es : List SqlElement) : List Char := es.flatMap SqlElement.text

def hasToken (es : List SqlElement) : Bool := es.any SqlElement.isToken

def pieces (es : List SqlElement) : List (List SqlElement) := es.splitOn .semicolon

theorem pieces_semicolon (es : List SqlElement) : pieces (.semicolon :: es) = [] :: pieces es := by
  simp [pieces, List.splitOn_cons_eq_if_modifyHead]

theorem pieces_cons {e : SqlElement} (h : e ≠ .semicolon) (es : List SqlElement) :
    ∃ first others, pieces es = first :: others ∧ pieces (e :: es) = (e :: first) :: others := by
  obtain ⟨first, others, hes⟩ := List.exists_cons_of_ne_nil (List.splitOn_ne_nil .semicolon es)
  exact ⟨first, others, hes, by simp [pieces, List.splitOn_cons_eq_if_modifyHead, h, hes]⟩

def trimmed (es : List SqlElement) : List Char := stripChars (textOf es)

/-- The statements of a text over the grammar. -/
def statements (es : List SqlElement) : List (List Char) :=
  ((pieces es).filter hasToken).map trimmed

/-- The code finds the statements of a text, and accepts it just when it has one. -/
def SplitExactly (sql : List Char) (es : List SqlElement) : Prop :=
  splitSqlStatements sql = statements es ∧
    ∀ s, validateQuery (String.ofList sql) = .ok s ↔ statements es = [s.toList]

/-- Stripping the comments of a piece leaves something just when the piece has a token. -/
def StripsLikeTokens (piece : List SqlElement) : Prop :=
  hasToken piece ↔ stripSqlComments (trimmed piece) ≠ []

instance (piece : List SqlElement) : Decidable (StripsLikeTokens piece) :=
  inferInstanceAs (Decidable (_ ↔ _))

section Scan

/-! ## The scan reads one element after the other -/

theorem sqlPieces_skip (quoting : Quoting) (skip : ℕ) (current sql : List Char)
    (hskip : skip ≤ sql.length) :
    sqlPieces quoting skip current sql =
      sqlPieces quoting 0 (current ++ sql.take skip) (sql.drop skip) := by
  induction skip generalizing current sql with
  | zero => simp
  | succ skip ih =>
    cases sql with
    | nil => simp at hskip
    | cons c rest =>
      have hrest : skip ≤ rest.length := by simpa using hskip
      rw [sqlPieces, ih _ rest hrest]
      simp

/-- One turn of the scan that does not end a piece. -/
theorem sqlPieces_turn {c : Char} {rest : List Char} {quoting : Quoting} (skip : ℕ)
    (after : Quoting) (hcut : ¬ (quoting = .outside ∧ c = ';')) (hturn : scanStep c rest quoting = (skip, after))
    (hskip : skip ≤ rest.length) (current : List Char) :
    sqlPieces quoting 0 current (c :: rest) =
      sqlPieces after 0 (current ++ c :: rest.take skip) (rest.drop skip) := by
  rw [sqlPieces, if_neg hcut, hturn, sqlPieces_skip _ _ _ _ hskip]
  simp

theorem sqlPieces_lineComment (current sql : List Char) :
    sqlPieces .lineComment 0 current sql =
      sqlPieces .outside 0 (current ++ sql.takeWhile (· ≠ '\n'))
        (sql.drop (sql.takeWhile (· ≠ '\n')).length) := by
  induction sql generalizing current with
  | nil => simp [sqlPieces]
  | cons c rest ih =>
    by_cases hc : c = '\n'
    · subst hc
      have hread : ∀ quoting, quoting = .lineComment ∨ quoting = .outside →
          sqlPieces quoting 0 current ('\n' :: rest) =
            sqlPieces .outside 0 (current ++ ['\n']) rest := by
        rintro quoting (rfl | rfl) <;>
          rw [sqlPieces_turn 0 .outside (by simp) (by simp [scanStep]) (by simp)] <;> simp
      rw [hread _ (.inl rfl)]
      simp [hread _ (.inr rfl)]
    · rw [sqlPieces_turn 0 .lineComment (by simp) (by simp [scanStep, hc])
        (by simp)]
      simp [ih, hc]

theorem sqlPieces_blockComment {sql body : List Char} (h : through ['*', '/'] sql = some body)
    (current : List Char) :
    sqlPieces .blockComment 0 current sql =
      sqlPieces .outside 0 (current ++ body) (sql.drop body.length) := by
  induction sql generalizing current body with
  | nil => cases h
  | cons c rest ih =>
    rw [through] at h
    split at h
    · obtain ⟨others, hrest⟩ := ‹['*', '/'] <+: c :: rest›
      obtain ⟨rfl, rfl⟩ := List.cons.inj hrest
      obtain rfl := Option.some.inj h
      rw [sqlPieces_turn 1 .outside (by simp) (by simp [scanStep]) (by simp)]
      rfl
    · obtain ⟨body', hbody, rfl⟩ := Option.map_eq_some_iff.1 h
      have hopen : ¬ (c = '*' ∧ rest.head? = some '/') := by
        rintro ⟨rfl, hd⟩
        obtain ⟨others, rfl⟩ := List.head?_eq_some_iff.1 hd
        exact absurd (List.prefix_append ['*', '/'] others) ‹_›
      rw [sqlPieces_turn 0 .blockComment (by simp)
        (by simp only [scanStep, if_neg hopen]) (by simp)]
      simp [ih hbody]

theorem sqlPieces_dollarQuote {name sql body : List Char}
    (h : through ('$' :: name) sql = some body) (current : List Char) :
    sqlPieces (.dollarQuote ('$' :: name)) 0 current sql =
      sqlPieces .outside 0 (current ++ body) (sql.drop body.length) := by
  induction sql generalizing current body with
  | nil => cases h
  | cons c rest ih =>
    rw [through] at h
    split at h
    · have hclose : '$' :: name <+: c :: rest := ‹_›
      obtain ⟨others, hrest⟩ := hclose
      obtain ⟨rfl, rfl⟩ := List.cons.inj hrest
      obtain rfl := Option.some.inj h
      rw [sqlPieces_turn name.length .outside (by simp) (by simp [scanStep])
        (by simp)]
      simp
    · obtain ⟨body', hbody, rfl⟩ := Option.map_eq_some_iff.1 h
      have hopen : ¬ (c = '$' ∧ (c :: rest).take ('$' :: name).length = '$' :: name) :=
        fun hclose => absurd (List.prefix_iff_eq_take.2 hclose.2.symm) ‹_›
      rw [sqlPieces_turn 0 (.dollarQuote ('$' :: name)) (by simp)
        (by simp only [scanStep, if_neg hopen]) (by simp)]
      simp [ih hbody]

/-- A literal ends at a quote that is not doubled. -/
theorem sqlPieces_quote {q : Char} (quoting : Quoting) (hne : quoting ≠ .outside)
    (hstep : ∀ c rest, scanStep c rest quoting =
      if c = q then if rest.head? = some q then (1, quoting) else (0, .outside) else (0, quoting))
    {sql body : List Char} (h : throughQuote q sql = some body) (current : List Char) :
    sqlPieces quoting 0 current sql =
      sqlPieces .outside 0 (current ++ body) (sql.drop body.length) := by
  have hcut : ∀ c, ¬ (quoting = .outside ∧ c = ';') := fun c hc => hne hc.1
  fun_induction throughQuote q sql generalizing current body with
  | case1 => cases h
  | case2 =>
    obtain rfl := Option.some.inj h
    rw [sqlPieces_turn 0 .outside (hcut _) (by simp [hstep]) (by simp)]
    simp
  | case3 c hc => cases h
  | case4 rest ih =>
    obtain ⟨body', hbody, rfl⟩ := Option.map_eq_some_iff.1 h
    rw [sqlPieces_turn 1 quoting (hcut _) (by simp [hstep]) (by simp)]
    simp [ih hbody]
  | case5 d rest hd =>
    obtain rfl := Option.some.inj h
    rw [sqlPieces_turn 0 .outside (hcut _) (by simp [hstep, hd]) (by simp)]
    simp
  | case6 c d rest hc ih =>
    obtain ⟨body', hbody, rfl⟩ := Option.map_eq_some_iff.1 h
    rw [sqlPieces_turn 0 quoting (hcut _) (by simp [hstep, hc]) (by simp)]
    simp [ih hbody]

theorem dollarTag?_eq_some {rest tag : List Char} (h : dollarTag? rest = some tag) :
    ∃ name others, tag = '$' :: (name ++ ['$']) ∧ rest = name ++ '$' :: others := by
  unfold dollarTag? at h
  extract_lets name at h
  split at h
  · obtain ⟨-, hclose⟩ := ‹_ ∧ _›
    obtain rfl := Option.some.inj h
    refine ⟨name, rest.drop (name.length + 1), rfl, ?_⟩
    obtain ⟨hlt, hget⟩ := List.getElem?_eq_some_iff.1 hclose
    have hname : rest.take name.length = name :=
      (List.prefix_iff_eq_take.1 (List.takeWhile_prefix _)).symm
    calc rest = rest.take name.length ++ rest.drop name.length := (List.take_append_drop ..).symm
      _ = name ++ '$' :: rest.drop (name.length + 1) := by
        rw [hname, List.drop_eq_getElem_cons hlt, hget]
  · cases h

theorem sqlPieces_dollar {rest : List Char} (h : dollarTag? rest = none) (current : List Char) :
    sqlPieces .outside 0 current ('$' :: rest) =
      sqlPieces .outside 0 (current ++ ['$']) rest := by
  rw [sqlPieces_turn 0 .outside (by simp) (by simp [scanStep, h]) (by simp)]
  simp

/-- The scan reads an element that neither ends a piece nor is the `$` of an identifier. -/
theorem sqlPieces_element {continues : Bool} {c : Char} {rest : List Char} {e : SqlElement}
    (h : nextElement continues c rest = some e) (hdollar : e ≠ .innerDollar)
    (hsemi : e ≠ .semicolon) (current : List Char) :
    sqlPieces .outside 0 current (c :: rest) =
      sqlPieces .outside 0 (current ++ e.text) ((c :: rest).drop e.text.length) := by
  unfold nextElement at h
  split_ifs at h with hline hblock hquote hd hinner hs
  · obtain rfl := Option.some.inj h
    obtain ⟨rfl, hdash⟩ := hline
    obtain ⟨others, rfl⟩ := List.head?_eq_some_iff.1 hdash
    rw [sqlPieces_turn 1 .lineComment (by simp) (by simp [scanStep]) (by simp),
      sqlPieces_lineComment]
    simp [SqlElement.text]
  · obtain ⟨body, hbody, rfl⟩ := Option.map_eq_some_iff.1 h
    obtain ⟨rfl, hstar⟩ := hblock
    obtain ⟨others, rfl⟩ := List.head?_eq_some_iff.1 hstar
    rw [sqlPieces_turn 1 .blockComment (by simp) (by simp [scanStep])
      (by simp)]
    have hclosed : through ['*', '/'] others = some body := hbody
    have hread := sqlPieces_blockComment hclosed
    simp [hread, SqlElement.text]
  · obtain ⟨body, hbody, rfl⟩ := Option.map_eq_some_iff.1 h
    rcases hquote with rfl | rfl
    · rw [sqlPieces_turn 0 .singleQuote (by simp) (by simp [scanStep])
        (by simp)]
      have hread := sqlPieces_quote .singleQuote (by simp) (fun _ _ => rfl) hbody
      simp [hread, SqlElement.text]
    · rw [sqlPieces_turn 0 .doubleQuote (by simp) (by simp [scanStep])
        (by simp)]
      have hread := sqlPieces_quote .doubleQuote (by simp) (fun _ _ => rfl) hbody
      simp [hread, SqlElement.text]
  · subst hd
    cases htag : dollarTag? rest with
    | none =>
      simp only [htag] at h
      obtain rfl := Option.some.inj h
      exact sqlPieces_dollar htag current
    | some tag =>
      simp only [htag] at h
      exact absurd (Option.some.inj h).symm hdollar
  · subst hd
    cases htag : dollarTag? rest with
    | none =>
      simp only [htag] at h
      obtain rfl := Option.some.inj h
      exact sqlPieces_dollar htag current
    | some tag =>
      simp only [htag] at h
      obtain ⟨body, hbody, rfl⟩ := Option.map_eq_some_iff.1 h
      obtain ⟨name, others, rfl, rfl⟩ := dollarTag?_eq_some htag
      rw [sqlPieces_turn (name.length + 1) (.dollarQuote ('$' :: (name ++ ['$']))) (by simp)
        (by simp [scanStep, htag]) (by simp), sqlPieces_dollarQuote (by simpa using hbody)]
      simp [SqlElement.text, List.take_append, List.take_of_length_le (Nat.le_succ name.length)]
  · exact absurd (Option.some.inj h).symm hsemi
  · obtain rfl := Option.some.inj h
    obtain ⟨hsingle, hdouble⟩ := not_or.1 hquote
    rw [sqlPieces_turn 0 .outside (by simp [hs])
      (by simp only [scanStep, if_neg hline, if_neg hblock, if_neg hsingle, if_neg hdouble,
        if_neg hd]) (by simp)]
    simp [SqlElement.text]

theorem isPrefix_of_through {stop sql body : List Char} (h : through stop sql = some body) :
    body <+: sql := by
  induction sql generalizing body with
  | nil => cases h
  | cons c rest ih =>
    rw [through] at h
    split at h
    · obtain rfl := Option.some.inj h
      assumption
    · obtain ⟨body', hbody, rfl⟩ := Option.map_eq_some_iff.1 h
      exact List.cons_prefix_cons.2 ⟨rfl, ih hbody⟩

theorem isPrefix_of_throughQuote {q : Char} {sql body : List Char}
    (h : throughQuote q sql = some body) : body <+: sql := by
  fun_induction throughQuote q sql generalizing body with
  | case1 => cases h
  | case2 =>
    obtain rfl := Option.some.inj h
    exact List.prefix_rfl
  | case3 c hc => cases h
  | case4 rest ih =>
    obtain ⟨body', hbody, rfl⟩ := Option.map_eq_some_iff.1 h
    simpa using ih hbody
  | case5 d rest hd =>
    obtain rfl := Option.some.inj h
    exact List.prefix_append [q] (d :: rest)
  | case6 c d rest hc ih =>
    obtain ⟨body', hbody, rfl⟩ := Option.map_eq_some_iff.1 h
    exact List.cons_prefix_cons.2 ⟨rfl, ih hbody⟩

/-- An element begins the text that is left. -/
theorem nextElement_text {continues : Bool} {c : Char} {rest : List Char} {e : SqlElement}
    (h : nextElement continues c rest = some e) : ∃ others, e.text = c :: others ∧ others <+: rest := by
  unfold nextElement at h
  split_ifs at h with hline hblock hquote hd hinner hs
  · obtain rfl := Option.some.inj h
    exact ⟨_, rfl, List.takeWhile_prefix _⟩
  · obtain ⟨body, hbody, rfl⟩ := Option.map_eq_some_iff.1 h
    obtain ⟨others, rfl⟩ := List.head?_eq_some_iff.1 hblock.2
    exact ⟨_, rfl, List.cons_prefix_cons.2 ⟨rfl, isPrefix_of_through hbody⟩⟩
  · obtain ⟨body, hbody, rfl⟩ := Option.map_eq_some_iff.1 h
    exact ⟨_, rfl, isPrefix_of_throughQuote hbody⟩
  · subst hd
    cases htag : dollarTag? rest <;> rw [htag] at h <;> obtain rfl := Option.some.inj h <;>
      exact ⟨[], rfl, List.nil_prefix⟩
  · subst hd
    cases htag : dollarTag? rest with
    | none =>
      rw [htag] at h
      obtain rfl := Option.some.inj h
      exact ⟨[], rfl, List.nil_prefix⟩
    | some tag =>
      rw [htag] at h
      obtain ⟨body, hbody, rfl⟩ := Option.map_eq_some_iff.1 h
      obtain ⟨name, others, rfl, rfl⟩ := dollarTag?_eq_some htag
      refine ⟨name ++ ['$'] ++ body, rfl, ?_⟩
      have hrest : body <+: others := by simpa using isPrefix_of_through hbody
      simpa using hrest
  · obtain rfl := Option.some.inj h
    exact ⟨[], by rw [hs]; rfl, List.nil_prefix⟩
  · obtain rfl := Option.some.inj h
    exact ⟨[], rfl, List.nil_prefix⟩

theorem elementsFrom_cons {continues : Bool} {c : Char} {rest : List Char} {es : List SqlElement}
    (h : elementsFrom continues 0 (c :: rest) = some es) :
    ∃ e others, nextElement continues c rest = some e ∧ es = e :: others ∧
      elementsFrom (e.continues continues) (e.text.length - 1) rest = some others := by
  rw [elementsFrom] at h
  obtain ⟨e, he, h⟩ := Option.bind_eq_some_iff.1 h
  obtain ⟨others, hothers, h⟩ := Option.bind_eq_some_iff.1 h
  exact ⟨e, others, he, (Option.some.inj h).symm, hothers⟩

/-- The pieces of the scan are those of the elements. -/
theorem sqlPieces_elementsFrom {continues : Bool} {skip : ℕ} {sql : List Char}
    {es : List SqlElement} (h : elementsFrom continues skip sql = some es)
    (hdollar : .innerDollar ∉ es) (current : List Char) :
    sqlPieces .outside 0 current (sql.drop skip) =
      ((pieces es).map textOf).modifyHead (current ++ ·) := by
  induction sql generalizing continues skip es current with
  | nil =>
    obtain rfl := Option.some.inj h
    simp [sqlPieces, pieces, textOf]
  | cons c rest ih =>
    cases skip with
    | succ skip => exact ih h hdollar current
    | zero =>
      obtain ⟨e, others, he, rfl, hothers⟩ := elementsFrom_cons h
      obtain ⟨hne, hothers'⟩ := not_or.1 (mt List.mem_cons.2 hdollar)
      obtain ⟨t, ht, -⟩ := nextElement_text he
      by_cases hsemi : e = .semicolon
      · subst hsemi
        obtain ⟨rfl, rfl⟩ := List.cons.inj ht
        obtain ⟨first, tail, hpieces⟩ :=
          List.exists_cons_of_ne_nil (List.splitOn_ne_nil .semicolon others)
        have hrest : sqlPieces .outside 0 [] rest = _ := ih hothers hothers' []
        rw [List.drop_zero, sqlPieces, if_pos ⟨rfl, rfl⟩, hrest, pieces_semicolon, pieces, hpieces]
        simp [textOf]
      · have hdrop : (c :: rest).drop e.text.length = rest.drop (e.text.length - 1) := by
          rw [ht]
          rfl
        obtain ⟨first, tail, hpieces, hcons⟩ := pieces_cons hsemi others
        rw [List.drop_zero, sqlPieces_element he (Ne.symm hne) hsemi, hdrop, ih hothers hothers',
          hpieces, hcons]
        simp [textOf]

end Scan

/-- Two filters of a list leave the same images just when they agree, provided that one of them
decides by the image. -/
theorem map_filter_eq_map_filter {α β : Type*} {f : α → β} {k : β → Bool} {h : α → Bool}
    {l : List α} : (l.filter fun a => k (f a)).map f = (l.filter h).map f ↔
      ∀ a ∈ l, h a = k (f a) := by
  constructor
  · intro heq
    have himp : ∀ a ∈ l, h a → k (f a) := by
      intro a ha hh
      have hmem : f a ∈ (l.filter h).map f := List.mem_map_of_mem (List.mem_filter.2 ⟨ha, hh⟩)
      rw [← heq] at hmem
      obtain ⟨b, hb, hfb⟩ := List.mem_map.1 hmem
      exact hfb ▸ (List.mem_filter.1 hb).2
    have hsub : (l.filter h).Sublist (l.filter fun a => k (f a)) := by
      have hboth : l.filter h = (l.filter fun a => k (f a)).filter h := by
        rw [List.filter_filter]
        exact List.filter_congr fun a ha => by
          cases hh : h a with
          | false => rfl
          | true => simp [himp a ha hh]
      rw [hboth]
      exact List.filter_sublist
    have hlen : (l.filter h).length = (l.filter fun a => k (f a)).length := by
      simpa using (congrArg List.length heq).symm
    have hsame := hsub.eq_of_length hlen
    intro a ha
    refine Bool.eq_iff_iff.2 ⟨himp a ha, fun hk => ?_⟩
    have hmem : a ∈ l.filter fun a => k (f a) := List.mem_filter.2 ⟨ha, hk⟩
    rw [← hsame] at hmem
    exact (List.mem_filter.1 hmem).2
  · intro h
    rw [List.filter_congr h]

theorem textOf_elementsFrom {continues : Bool} {skip : ℕ} {sql : List Char}
    {es : List SqlElement} (h : elementsFrom continues skip sql = some es) :
    textOf es = sql.drop skip := by
  induction sql generalizing continues skip es with
  | nil =>
    obtain rfl := Option.some.inj h
    simp [textOf]
  | cons c rest ih =>
    cases skip with
    | succ skip => exact ih h
    | zero =>
      obtain ⟨e, others, he, rfl, hothers⟩ := elementsFrom_cons h
      obtain ⟨t, ht, hpre⟩ := nextElement_text he
      have hlen : e.text.length - 1 = t.length := by simp [ht]
      obtain ⟨after, rfl⟩ := hpre
      have hrest := ih hothers
      rw [hlen, List.drop_left] at hrest
      rw [List.drop_zero, ← hrest, textOf, List.flatMap_cons, ht]
      rfl

section Exact

variable {sql : List Char} {es : List SqlElement}

theorem splitSqlStatements_eq (h : elements sql = some es) (hdollar : .innerDollar ∉ es) :
    splitSqlStatements sql =
      ((pieces es).filter fun p => stripSqlComments (trimmed p) ≠ []).map trimmed := by
  have hpieces : sqlPieces .outside 0 [] sql = (pieces es).map textOf := by
    have hscan := sqlPieces_elementsFrom h hdollar []
    obtain ⟨first, others, hfirst⟩ :=
      List.exists_cons_of_ne_nil (List.splitOn_ne_nil SqlElement.semicolon es)
    simpa [pieces, hfirst] using hscan
  have hnil : stripSqlComments [] = [] := rfl
  have hfilter : ∀ s : List Char, (decide (stripSqlComments s ≠ []) && decide (s ≠ [])) =
      decide (stripSqlComments s ≠ []) := by
    intro s
    by_cases hs : s = []
    · simp [hs, hnil]
    · simp [hs]
  rw [splitSqlStatements, hpieces, List.map_map, List.filter_filter, List.filter_map]
  simp only [hfilter]
  rfl

theorem splitSqlStatements_eq_statements (h : elements sql = some es)
    (hdollar : .innerDollar ∉ es) :
    splitSqlStatements sql = statements es ↔ ∀ p ∈ pieces es, StripsLikeTokens p := by
  rw [splitSqlStatements_eq h hdollar, statements,
    map_filter_eq_map_filter (k := fun s => decide (stripSqlComments s ≠ []))]
  refine forall₂_congr fun p _ => ?_
  rw [Bool.eq_iff_iff, decide_eq_true_iff, StripsLikeTokens]

theorem stripBlockComments_cons {c : Char} {rest : List Char}
    (h : ¬ (c = '/' ∧ rest.head? = some '*')) :
    stripBlockComments 0 (c :: rest) = c :: stripBlockComments 0 rest := by
  rw [stripBlockComments]
  rintro body rfl rfl
  exact h ⟨rfl, rfl⟩

theorem stripLineComments_cons {c : Char} {rest : List Char}
    (h : ¬ (c = '-' ∧ rest.head? = some '-')) :
    stripLineComments false (c :: rest) = c :: stripLineComments false rest := by
  rw [stripLineComments, if_neg h]

/-- Nothing is left of a blank text. -/
theorem stripSqlComments_blank (h : ∀ c ∈ sql, isspace c) : stripSqlComments sql = [] := by
  have hkept : stripLineComments false (stripBlockComments 0 sql) = sql := by
    induction sql with
    | nil => rfl
    | cons c rest ih =>
      obtain ⟨hspace, hrest⟩ := List.forall_mem_cons.1 h
      have hslash : c ≠ '/' := by
        rintro rfl
        cases hspace
      have hdash : c ≠ '-' := by
        rintro rfl
        cases hspace
      rw [stripBlockComments_cons fun hc => hslash hc.1,
        stripLineComments_cons fun hc => hdash hc.1, ih hrest]
  rw [stripSqlComments, hkept, stripChars_eq_nil]
  exact h

theorem validateQuery_eq_ok {s : String} :
    validateQuery (String.ofList sql) = .ok s ↔
      stripSqlComments sql ≠ [] ∧ splitSqlStatements sql = [s.toList] := by
  unfold validateQuery
  simp only [String.toList_ofList]
  split
  · have hnil := stripSqlComments_blank (stripChars_eq_nil.1 ‹stripChars sql = []›)
    simp [hnil]
  · split
    · simp [‹stripSqlComments sql = []›]
    · cases hsplit : splitSqlStatements sql with
      | nil => simp
      | cons first others =>
        cases others with
        | cons second others => simp
        | nil =>
          have hmem : first ∈ splitSqlStatements sql := by simp [hsplit]
          have htrim : stripChars first = first := by
            rw [splitSqlStatements, List.filter_filter] at hmem
            obtain ⟨piece, -, rfl⟩ := List.mem_map.1 (List.mem_filter.1 hmem).1
            exact stripChars_stripChars piece
          simp only [htrim, Except.ok.injEq, List.cons.injEq, and_true]
          rw [and_iff_right ‹_›, ← String.toList_inj, String.toList_ofList]

/-- The code splits a text exactly if stripping the comments leaves something of just the pieces
with a token, and of a text with a single statement. -/
theorem splitExactly_iff (h : elements sql = some es) (hdollar : .innerDollar ∉ es) :
    SplitExactly sql es ↔ (∀ p ∈ pieces es, StripsLikeTokens p) ∧
      ((statements es).length = 1 → stripSqlComments sql ≠ []) := by
  rw [SplitExactly, splitSqlStatements_eq_statements h hdollar]
  refine and_congr_right fun hpieces => ?_
  have hsplit := (splitSqlStatements_eq_statements h hdollar).2 hpieces
  simp only [validateQuery_eq_ok, hsplit, and_iff_right_iff_imp]
  constructor
  · intro haccept hone
    obtain ⟨s, hs⟩ := List.length_eq_one_iff.1 hone
    exact haccept (String.ofList s) (by rw [hs, String.toList_ofList])
  · exact fun hone s hs => hone (by rw [hs]; rfl)

/-- A quoted semicolon and one in a comment, around the one that ends the statement. -/
theorem splitExactly_iff_quoted :
    SplitExactly ['f', '\'', ';', '\'', ';', '-', '-', ';']
      [.code 'f', .quoted ['\'', ';', '\''], .semicolon, .lineComment ['-', '-', ';']] :=
  (splitExactly_iff (by decide) (by decide)).2 ⟨by decide, by decide⟩

/-- Two statements with `$` in their identifiers are read as one. -/
theorem not_splitExactly_innerDollar : ∃ es,
    elements "SELECT a$b$; DELETE FROM t WHERE x$b$ = 1".toList = some es ∧
      ¬ SplitExactly "SELECT a$b$; DELETE FROM t WHERE x$b$ = 1".toList es := by
  have hsplit : (elements "SELECT a$b$; DELETE FROM t WHERE x$b$ = 1".toList).map (fun es =>
      decide (splitSqlStatements "SELECT a$b$; DELETE FROM t WHERE x$b$ = 1".toList =
        statements es)) = some false := by decide
  obtain ⟨es, hes, hne⟩ := Option.map_eq_some_iff.1 hsplit
  exact ⟨es, hes, fun h => of_decide_eq_false hne h.1⟩

end Exact

end AltrStream.Domain
