import AltrStream.Domain.Statements

/-! # Where the two readings of comments agree

`strip_sql_comments` takes block comments away before line comments, and looks at neither
quotes nor the other kind. As long as no line comment contains `/*`, it still leaves
something of exactly the texts with a token.
-/
namespace AltrStream.Domain
open Python

/-- What the text after an element must not do to it. -/
def SqlElement.FormedBefore (rest : List Char) : SqlElement → Prop
  | code c => ¬ (c = '-' ∧ rest.head? = some '-') ∧ ¬ (c = '/' ∧ rest.head? = some '*')
  | quoted t => ∃ q others, t = q :: others ∧ (q = '\'' ∨ q = '"' ∨ q = '$')
  | lineComment t => ∃ others, t = '-' :: '-' :: others ∧ '\n' ∉ others ∧
      (rest = [] ∨ rest.head? = some '\n')
  | blockComment t => ∃ body, t = '/' :: '*' :: body ∧ through ['*', '/'] body = some body
  | innerDollar | semicolon => True

def Formed : List SqlElement → Prop
  | [] => True
  | e :: es => e.FormedBefore (textOf es) ∧ Formed es

/-- No line comment seems to open a block comment. -/
def PlainLineComments (es : List SqlElement) : Prop :=
  ∀ t, .lineComment t ∈ es → ¬ ['/', '*'] <:+: t

section Formed

theorem through_self {d : Char} {stop sql body : List Char} (h : through (d :: stop) sql = some body) :
    through (d :: stop) body = some body := by
  induction sql generalizing body with
  | nil => cases h
  | cons c rest ih =>
    rw [through] at h
    split at h
    · obtain rfl := Option.some.inj h
      simp [through]
    · obtain ⟨body', hbody, rfl⟩ := Option.map_eq_some_iff.1 h
      have hopen : ¬ d :: stop <+: c :: body' := fun hpre =>
        absurd (hpre.trans (List.cons_prefix_cons.2 ⟨rfl, isPrefix_of_through hbody⟩)) ‹_›
      rw [through, if_neg hopen, ih hbody]
      rfl

theorem length_le_of_through {stop sql body : List Char} (h : through stop sql = some body) :
    stop.length ≤ sql.length := by
  induction sql generalizing body with
  | nil => cases h
  | cons c rest ih =>
    rw [through] at h
    split at h
    · exact List.IsPrefix.length_le ‹_›
    · obtain ⟨body', hbody, -⟩ := Option.map_eq_some_iff.1 h
      exact Nat.le_succ_of_le (ih hbody)

theorem through_append {stop sql body rest : List Char} (h : through stop sql = some body) :
    through stop (sql ++ rest) = some body := by
  induction sql generalizing body with
  | nil => cases h
  | cons c sql ih =>
    have hpre : stop <+: c :: sql ++ rest ↔ stop <+: c :: sql :=
      ⟨fun hstop => List.prefix_of_prefix_length_le hstop (List.prefix_append _ rest)
        (length_le_of_through h), fun hstop => hstop.trans (List.prefix_append _ rest)⟩
    rw [List.cons_append] at hpre ⊢
    rw [through] at h ⊢
    simp only [hpre]
    split at h
    · rw [if_pos ‹_›]
      exact h
    · obtain ⟨body', hbody, rfl⟩ := Option.map_eq_some_iff.1 h
      rw [if_neg ‹_›, ih hbody]
      rfl

theorem nextElement_formedBefore {continues : Bool} {c : Char} {rest : List Char} {e : SqlElement}
    (h : nextElement continues c rest = some e) :
    e.FormedBefore (rest.drop (e.text.length - 1)) := by
  unfold nextElement at h
  split_ifs at h with hline hblock hquote hd hinner hs
  · obtain rfl := Option.some.inj h
    obtain ⟨rfl, hdash⟩ := hline
    obtain ⟨others, rfl⟩ := List.head?_eq_some_iff.1 hdash
    refine ⟨others.takeWhile (· ≠ '\n'), by simp, fun hmem => ?_, ?_⟩
    · simpa using List.mem_takeWhile_imp hmem
    · have hdrop : others.drop (others.takeWhile (· ≠ '\n')).length =
          others.dropWhile (· ≠ '\n') := by
        have hleft : (others.takeWhile (· ≠ '\n') ++ others.dropWhile (· ≠ '\n')).drop
            (others.takeWhile (· ≠ '\n')).length = others.dropWhile (· ≠ '\n') := List.drop_left
        rwa [List.takeWhile_append_dropWhile] at hleft
      have hrest : others.dropWhile (· ≠ '\n') = [] ∨
          (others.dropWhile (· ≠ '\n')).head? = some '\n' := by
        by_cases hnil : others.dropWhile (· ≠ '\n') = []
        · exact .inl hnil
        · have hhead := List.head_dropWhile_not (fun c => decide (c ≠ '\n')) hnil
          have hnl : (others.dropWhile (· ≠ '\n')).head hnil = '\n' := by simpa using hhead
          exact .inr (by rw [List.head?_eq_some_head hnil, hnl])
      have htake : ('-' :: others).takeWhile (· ≠ '\n') = '-' :: others.takeWhile (· ≠ '\n') := by
        simp
      rw [← hdrop] at hrest
      rw [htake]
      exact hrest
  · obtain ⟨body, hbody, rfl⟩ := Option.map_eq_some_iff.1 h
    exact ⟨body, by rw [hblock.1], through_self hbody⟩
  · obtain ⟨body, hbody, rfl⟩ := Option.map_eq_some_iff.1 h
    exact ⟨c, body, rfl, hquote.imp id .inl⟩
  · subst hd
    cases htag : dollarTag? rest <;> rw [htag] at h <;> obtain rfl := Option.some.inj h
    · exact ⟨by simp, by simp⟩
    · exact trivial
  · subst hd
    cases htag : dollarTag? rest with
    | none =>
      rw [htag] at h
      obtain rfl := Option.some.inj h
      exact ⟨by simp, by simp⟩
    | some tag =>
      rw [htag] at h
      obtain ⟨body, hbody, rfl⟩ := Option.map_eq_some_iff.1 h
      obtain ⟨name, others, rfl, -⟩ := dollarTag?_eq_some htag
      exact ⟨'$', name ++ ['$'] ++ body, rfl, .inr (.inr rfl)⟩
  · obtain rfl := Option.some.inj h
    exact trivial
  · obtain rfl := Option.some.inj h
    exact ⟨hline, hblock⟩

theorem formed_elementsFrom {continues : Bool} {skip : ℕ} {sql : List Char} {es : List SqlElement}
    (h : elementsFrom continues skip sql = some es) : Formed es := by
  induction sql generalizing continues skip es with
  | nil =>
    obtain rfl := Option.some.inj h
    trivial
  | cons c rest ih =>
    cases skip with
    | succ skip => exact ih h
    | zero =>
      obtain ⟨e, others, he, rfl, hothers⟩ := elementsFrom_cons h
      refine ⟨?_, ih hothers⟩
      rw [textOf_elementsFrom hothers]
      exact nextElement_formedBefore he

theorem SqlElement.FormedBefore.of_append {e : SqlElement} {rest : List Char}
    (after : List Char) (h : e.FormedBefore (rest ++ after)) : e.FormedBefore rest := by
  cases rest with
  | nil =>
    cases e with
    | code c => simp [SqlElement.FormedBefore]
    | lineComment t =>
      obtain ⟨others, ht, hnl, -⟩ := h
      exact ⟨others, ht, hnl, .inl rfl⟩
    | innerDollar | quoted | blockComment | semicolon => exact h
  | cons d rest =>
    cases e with
    | lineComment t =>
      obtain ⟨others, ht, hnl, hend⟩ := h
      exact ⟨others, ht, hnl, hend.imp (fun hnil => by cases hnil) id⟩
    | code | innerDollar | quoted | blockComment | semicolon => exact h

theorem Formed.of_infix {es piece : List SqlElement} (h : Formed es) (hpiece : piece <:+: es) :
    Formed piece := by
  obtain ⟨before, after, rfl⟩ := hpiece
  rw [List.append_assoc] at h
  induction before with
  | cons e before ih => exact ih h.2
  | nil =>
    induction piece with
    | nil => trivial
    | cons e piece ih =>
      obtain ⟨he, hes⟩ := h
      refine ⟨SqlElement.FormedBefore.of_append (textOf after) ?_, ih hes⟩
      simpa [textOf] using he

theorem mem_pieces {es piece : List SqlElement} (h : piece ∈ pieces es) :
    piece <:+: es ∧ .semicolon ∉ piece := by
  suffices hall : ∃ first others, pieces es = first :: others ∧ first <+: es ∧
      .semicolon ∉ first ∧ ∀ p ∈ others, p <:+: es ∧ .semicolon ∉ p by
    obtain ⟨first, others, hes, hpre, hsemi, hothers⟩ := hall
    rw [hes, List.mem_cons] at h
    rcases h with rfl | h
    · exact ⟨hpre.isInfix, hsemi⟩
    · exact hothers piece h
  clear h
  induction es with
  | nil => exact ⟨[], [], by simp [pieces], List.nil_prefix, by simp, by simp⟩
  | cons e es ih =>
    obtain ⟨first, others, hes, hpre, hsemi, hothers⟩ := ih
    have hlater : ∀ p ∈ others, p <:+: e :: es ∧ .semicolon ∉ p := fun p hp =>
      ⟨(hothers p hp).1.trans (List.suffix_cons e es).isInfix, (hothers p hp).2⟩
    by_cases he : e = .semicolon
    · subst he
      refine ⟨[], first :: others, by rw [pieces_semicolon, hes], List.nil_prefix, by simp, ?_⟩
      rw [List.forall_mem_cons]
      exact ⟨⟨hpre.isInfix.trans (List.suffix_cons _ es).isInfix, hsemi⟩, hlater⟩
    · obtain ⟨first', others', hes', hcons⟩ := pieces_cons he es
      obtain ⟨rfl, rfl⟩ := List.cons.inj (hes'.symm.trans hes)
      refine ⟨e :: first', others', hcons, List.cons_prefix_cons.2 ⟨rfl, hpre⟩, ?_, hlater⟩
      simp [Ne.symm he, hsemi]

end Formed

section Stripping

/-! ## What stripping leaves -/

def Blank (s : List Char) : Prop := ∀ c ∈ s, isspace c

theorem stripBlockComments_skip (skip : ℕ) (s : List Char) :
    stripBlockComments skip s = stripBlockComments 0 (s.drop skip) := by
  induction skip generalizing s with
  | zero => rfl
  | succ skip ih =>
    cases s with
    | nil => simp [stripBlockComments]
    | cons c s => rw [stripBlockComments, ih, List.drop_succ_cons]

theorem find?_range_through (s : List Char) :
    ((List.range s.length).find? fun i => ['*', '/'] <+: s.drop i).map (· + 2) =
      (through ['*', '/'] s).map List.length := by
  induction s with
  | nil => rfl
  | cons c s ih =>
    rw [List.length_cons, List.range_succ_eq_map, List.find?_cons, through]
    by_cases hpre : ['*', '/'] <+: c :: s
    · simp [hpre]
    · simp only [List.drop_zero, hpre, decide_false, if_false, List.find?_map, Option.map_map]
      have hshift : ((fun i => decide (['*', '/'] <+: (c :: s).drop i)) ∘ Nat.succ) =
          fun i => decide (['*', '/'] <+: s.drop i) := rfl
      rw [hshift]
      calc _ = (((List.range s.length).find? fun i => ['*', '/'] <+: s.drop i).map (· + 2)).map
            (· + 1) := by
            rw [Option.map_map]
            rfl
        _ = _ := by
          rw [ih, Option.map_map]
          rfl

/-- A block comment is replaced by a space. -/
theorem stripBlockComments_open (body : List Char) :
    stripBlockComments 0 ('/' :: '*' :: body) =
      match through ['*', '/'] body with
      | some text => ' ' :: stripBlockComments 0 (body.drop text.length)
      | none => '/' :: stripBlockComments 0 ('*' :: body) := by
  have hfind := find?_range_through body
  rw [stripBlockComments]
  cases hi : (List.range body.length).find? fun i => ['*', '/'] <+: body.drop i with
  | none =>
    rw [hi] at hfind
    rw [Option.map_eq_none_iff.1 hfind.symm]
  | some i =>
    rw [hi] at hfind
    obtain ⟨text, htext, hlen⟩ := Option.map_eq_some_iff.1 hfind.symm
    simp only [htext, hlen]
    rw [stripBlockComments_skip]
    rfl

theorem stripBlockComments_append {t rest : List Char} (ht : ¬ ['/', '*'] <:+: t)
    (hrest : rest = [] ∨ rest.head? = some '\n') :
    stripBlockComments 0 (t ++ rest) = t ++ stripBlockComments 0 rest := by
  induction t with
  | nil => rfl
  | cons c t ih =>
    have hopen : ¬ (c = '/' ∧ (t ++ rest).head? = some '*') := by
      rintro ⟨rfl, hstar⟩
      cases t with
      | nil => rcases hrest with rfl | hrest <;> simp_all
      | cons d t =>
        obtain rfl : d = '*' := by simpa using hstar
        exact ht (List.prefix_append ['/', '*'] t).isInfix
    rw [List.cons_append, stripBlockComments_cons hopen,
      ih fun h => ht (h.trans (List.suffix_cons c t).isInfix), List.cons_append]

theorem stripLineComments_append {t rest : List Char} (ht : '\n' ∉ t)
    (hrest : rest = [] ∨ rest.head? = some '\n') :
    stripLineComments true (t ++ rest) = stripLineComments false rest := by
  induction t with
  | nil =>
    rcases hrest with rfl | hrest
    · rfl
    · obtain ⟨others, rfl⟩ := List.head?_eq_some_iff.1 hrest
      simp [stripLineComments]
  | cons c t ih =>
    obtain ⟨hc, ht⟩ := not_or.1 (mt List.mem_cons.2 ht)
    rw [List.cons_append, stripLineComments, if_neg (Ne.symm hc), ih ht]

theorem head?_stripBlockComments {rest : List Char} {c : Char} (hc : c ≠ ' ')
    (h : (stripBlockComments 0 rest).head? = some c) : rest.head? = some c := by
  cases rest with
  | nil => exact h
  | cons d rest =>
    by_cases hopen : d = '/' ∧ rest.head? = some '*'
    · obtain ⟨rfl, hstar⟩ := hopen
      obtain ⟨body, rfl⟩ := List.head?_eq_some_iff.1 hstar
      rw [stripBlockComments_open] at h
      split at h
      · exact absurd (Option.some.inj h).symm hc
      · exact h
    · rw [stripBlockComments_cons hopen] at h
      exact h

theorem blank_cons {c : Char} {s : List Char} : Blank (c :: s) ↔ isspace c ∧ Blank s :=
  List.forall_mem_cons

/-- What is left of elements is blank exactly if all of them are spaces and comments. -/
theorem blank_stripped {es : List SqlElement} (hes : Formed es) (hplain : PlainLineComments es) :
    Blank (stripLineComments false (stripBlockComments 0 (textOf es))) ↔
      hasToken es = false ∧ .semicolon ∉ es := by
  induction es with
  | nil => exact iff_of_true (fun c hc => by cases hc) ⟨rfl, by simp⟩
  | cons e es ih =>
    obtain ⟨he, hothers⟩ := hes
    have hrest := ih hothers fun t ht => hplain t (List.mem_cons_of_mem _ ht)
    have htext : textOf (e :: es) = e.text ++ textOf es := rfl
    have htoken : hasToken (e :: es) = (e.isToken || hasToken es) := rfl
    -- An element that starts with `c` and that block comments do not swallow.
    have hkept : ∀ {c : Char} (others : List Char),
        ¬ (c = '-' ∧ (others ++ textOf es).head? = some '-') →
        ¬ (c = '/' ∧ (others ++ textOf es).head? = some '*') →
        stripLineComments false (stripBlockComments 0 (c :: (others ++ textOf es))) =
          c :: stripLineComments false (stripBlockComments 0 (others ++ textOf es)) := by
      intro c others hdash hslash
      rw [stripBlockComments_cons hslash, stripLineComments_cons]
      exact fun h => hdash ⟨h.1, head?_stripBlockComments (by decide) h.2⟩
    cases e with
    | code c =>
      have hread := hkept [] he.1 he.2
      rw [htext, htoken]
      simp only [SqlElement.text, List.singleton_append, List.nil_append] at hread ⊢
      rw [hread, blank_cons, hrest]
      simp [SqlElement.isToken, and_assoc]
    | innerDollar =>
      have hread := hkept [] (c := '$') (by simp) (by simp)
      rw [htext, htoken]
      simp only [SqlElement.text, List.singleton_append, List.nil_append] at hread ⊢
      rw [hread, blank_cons]
      simp [SqlElement.isToken, isspace]
    | quoted t =>
      obtain ⟨q, others, rfl, hq⟩ := he
      have hread := hkept others (c := q) (by rcases hq with rfl | rfl | rfl <;> simp)
        (by rcases hq with rfl | rfl | rfl <;> simp)
      have hspace : isspace q = false := by rcases hq with rfl | rfl | rfl <;> rfl
      rw [htext, htoken]
      simp only [SqlElement.text, List.cons_append]
      rw [hread, blank_cons, hspace]
      simp [SqlElement.isToken]
    | lineComment t =>
      obtain ⟨others, rfl, hnl, hend⟩ := he
      have hopen := hplain _ List.mem_cons_self
      have hend' : stripBlockComments 0 (textOf es) = [] ∨
          (stripBlockComments 0 (textOf es)).head? = some '\n' := by
        rcases hend with hnil | hend
        · exact .inl (by rw [hnil]; rfl)
        · obtain ⟨tail, htail⟩ := List.head?_eq_some_iff.1 hend
          exact .inr (by rw [htail, stripBlockComments_cons (by simp)]; rfl)
      rw [htext, htoken, SqlElement.text, stripBlockComments_append hopen hend]
      have hline : stripLineComments false ('-' :: '-' :: others ++ stripBlockComments 0 (textOf es)) =
          ' ' :: stripLineComments false (stripBlockComments 0 (textOf es)) := by
        rw [List.cons_append, stripLineComments, if_pos (by simp),
          stripLineComments_append (by simp [hnl]) hend']
      rw [hline, blank_cons, hrest]
      simp [SqlElement.isToken, isspace]
    | blockComment t =>
      obtain ⟨body, rfl, hbody⟩ := he
      have hblock : stripBlockComments 0 ('/' :: '*' :: (body ++ textOf es)) =
          ' ' :: stripBlockComments 0 (textOf es) := by
        simp only [stripBlockComments_open, through_append hbody, List.drop_left]
      rw [htext, htoken, SqlElement.text, List.cons_append, List.cons_append, hblock,
        stripLineComments_cons (by simp), blank_cons, hrest]
      simp [SqlElement.isToken, isspace]
    | semicolon =>
      have hread := hkept [] (c := ';') (by simp) (by simp)
      rw [htext, htoken]
      simp only [SqlElement.text, List.singleton_append, List.nil_append] at hread ⊢
      rw [hread, blank_cons]
      simp [isspace]

theorem head?_append_blank {s after : List Char} (hafter : Blank after) {c : Char}
    (hc : isspace c = false) : (s ++ after).head? = some c ↔ s.head? = some c := by
  cases s with
  | cons d s => rfl
  | nil =>
    refine iff_of_false (fun h => ?_) (by simp)
    have hspace := hafter c (List.mem_of_head? h)
    rw [hc] at hspace
    cases hspace

theorem stripBlockComments_blank_append {before s : List Char} (hbefore : Blank before) :
    stripBlockComments 0 (before ++ s) = before ++ stripBlockComments 0 s := by
  induction before with
  | nil => rfl
  | cons c before ih =>
    obtain ⟨hc, hbefore⟩ := blank_cons.1 hbefore
    rw [List.cons_append, stripBlockComments_cons, ih hbefore, List.cons_append]
    rintro ⟨rfl, -⟩
    cases hc

theorem stripLineComments_blank_append {before s : List Char} (hbefore : Blank before) :
    stripLineComments false (before ++ s) = before ++ stripLineComments false s := by
  induction before with
  | nil => rfl
  | cons c before ih =>
    obtain ⟨hc, hbefore⟩ := blank_cons.1 hbefore
    rw [List.cons_append, stripLineComments_cons, ih hbefore, List.cons_append]
    rintro ⟨rfl, -⟩
    cases hc

theorem through_blank {s : List Char} (hs : Blank s) : through ['*', '/'] s = none := by
  induction s with
  | nil => rfl
  | cons c s ih =>
    obtain ⟨hc, hs⟩ := blank_cons.1 hs
    have hopen : ¬ ['*', '/'] <+: c :: s := by
      intro h
      obtain ⟨rfl, -⟩ := List.cons_prefix_cons.1 h
      cases hc
    rw [through, if_neg hopen, ih hs]
    rfl

theorem through_append_blank {s after : List Char} (hafter : Blank after) :
    through ['*', '/'] (s ++ after) = through ['*', '/'] s := by
  have hpre : ∀ (c : Char) (s : List Char), ['*', '/'] <+: c :: (s ++ after) ↔
      ['*', '/'] <+: c :: s := by
    intro c s
    have hhead := head?_append_blank (s := s) hafter (c := '/') rfl
    have hsingle : ∀ l : List Char, ['/'] <+: l ↔ l.head? = some '/' := by
      intro l
      cases l <;> simp [List.cons_prefix_cons, eq_comm]
    rw [List.cons_prefix_cons, List.cons_prefix_cons, hsingle, hsingle, hhead]
  induction s with
  | nil => rw [List.nil_append, through_blank hafter, through]
  | cons c s ih => simp only [List.cons_append, through, hpre, ih]

theorem stripBlockComments_append_blank {s after : List Char} (hafter : Blank after) :
    stripBlockComments 0 (s ++ after) = stripBlockComments 0 s ++ after := by
  induction hn : s.length using Nat.strong_induction_on generalizing s with
  | _ n ih =>
    cases s with
    | nil =>
      have hread := stripBlockComments_blank_append (s := []) hafter
      simpa [stripBlockComments] using hread
    | cons c s =>
      rw [List.length_cons] at hn
      by_cases hopen : c = '/' ∧ s.head? = some '*'
      · obtain ⟨rfl, hstar⟩ := hopen
        obtain ⟨body, rfl⟩ := List.head?_eq_some_iff.1 hstar
        simp only [List.cons_append, stripBlockComments_open, through_append_blank hafter]
        cases hbody : through ['*', '/'] body with
        | none =>
          have hrest := ih ('*' :: body).length (by omega) rfl
          simpa using hrest
        | some text =>
          have hlen := (isPrefix_of_through hbody).length_le
          simp only [List.drop_append_of_le_length hlen]
          rw [ih (body.drop text.length).length (by simp at hn ⊢; omega) rfl]
          rfl
      · rw [List.cons_append, stripBlockComments_cons hopen, stripBlockComments_cons,
          ih s.length (by omega) rfl, List.cons_append]
        rwa [head?_append_blank hafter rfl]

theorem blank_stripLineComments {s : List Char} (hs : Blank s) (comment : Bool) :
    Blank (stripLineComments comment s) := by
  induction s generalizing comment with
  | nil => cases comment <;> exact fun c hc => by cases hc
  | cons c s ih =>
    obtain ⟨hc, hs⟩ := blank_cons.1 hs
    cases comment <;> rw [stripLineComments] <;> split
    · exact blank_cons.2 ⟨rfl, ih hs true⟩
    · exact blank_cons.2 ⟨hc, ih hs false⟩
    · exact blank_cons.2 ⟨hc, ih hs false⟩
    · exact ih hs true

theorem blank_stripLineComments_append {s after : List Char} (hafter : Blank after)
    (comment : Bool) : Blank (stripLineComments comment (s ++ after)) ↔
      Blank (stripLineComments comment s) := by
  induction s generalizing comment with
  | nil =>
    refine iff_of_true (blank_stripLineComments hafter comment) (blank_stripLineComments ?_ comment)
    exact fun c hc => by cases hc
  | cons c s ih =>
    cases comment with
    | true =>
      rw [List.cons_append, stripLineComments, stripLineComments]
      split
      · rw [blank_cons, blank_cons, ih]
      · exact ih true
    | false =>
      simp only [List.cons_append, stripLineComments, head?_append_blank hafter (c := '-') rfl]
      split <;> rw [blank_cons, blank_cons, ih]

/-- Spaces around a text do not matter to what is left of it. -/
theorem blank_stripped_surrounded {before after s : List Char} (hbefore : Blank before)
    (hafter : Blank after) :
    Blank (stripLineComments false (stripBlockComments 0 (before ++ s ++ after))) ↔
      Blank (stripLineComments false (stripBlockComments 0 s)) := by
  rw [List.append_assoc, stripBlockComments_blank_append hbefore,
    stripLineComments_blank_append hbefore, stripBlockComments_append_blank hafter]
  refine Iff.trans ⟨fun h c hc => h c (List.mem_append_right _ hc), fun h c hc => ?_⟩
    (blank_stripLineComments_append hafter false)
  exact (List.mem_append.1 hc).elim (hbefore c) (h c)

theorem stripsLikeTokens {es : List SqlElement} (hes : Formed es) (hplain : PlainLineComments es)
    (hsemi : .semicolon ∉ es) : StripsLikeTokens es := by
  obtain ⟨before, after, htext, hbefore, hafter⟩ := stripChars_append (textOf es)
  have hblank := blank_stripped hes hplain
  rw [and_iff_left hsemi, htext, blank_stripped_surrounded hbefore hafter, ← Bool.not_eq_true]
    at hblank
  rw [StripsLikeTokens, stripSqlComments, ne_eq, stripChars_eq_nil]
  exact not_iff_not.1 (hblank.symm.trans not_not.symm)

/-- A text without `/*` in its line comments, and without dollar tags inside its identifiers, is
split exactly. -/
theorem splitExactly_of_plainLineComments {sql : List Char} {es : List SqlElement}
    (h : elements sql = some es) (hdollar : .innerDollar ∉ es) (hplain : PlainLineComments es) :
    SplitExactly sql es := by
  have hes : Formed es := formed_elementsFrom h
  rw [splitExactly_iff h hdollar]
  constructor
  · intro piece hpiece
    obtain ⟨hwithin, hsemi⟩ := mem_pieces hpiece
    exact stripsLikeTokens (hes.of_infix hwithin)
      (fun t ht => hplain t (hwithin.subset ht)) hsemi
  · intro hone hnil
    obtain ⟨s, hs⟩ := List.length_eq_one_iff.1 hone
    have hmem : s ∈ statements es := by simp [hs]
    obtain ⟨piece, hpiece, -⟩ := List.mem_map.1 hmem
    obtain ⟨hpiece, htoken⟩ := List.mem_filter.1 hpiece
    obtain ⟨e, he, htoken⟩ := List.any_eq_true.1 htoken
    have htext : textOf es = sql := textOf_elementsFrom h
    rw [← htext] at hnil
    have hnone := ((blank_stripped hes hplain).1 (stripChars_eq_nil.1 hnil)).1
    have hany : hasToken es := List.any_eq_true.2 ⟨e, (mem_pieces hpiece).1.subset he, htoken⟩
    rw [hnone] at hany
    cases hany

end Stripping

end AltrStream.Domain
