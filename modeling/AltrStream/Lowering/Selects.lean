import AltrStream.Lowering.Ranking
import AltrStream.Lowering.SelectGrammar
import AltrStream.Lowering.WhereTree

/-! # Lowered READs as statements of their dialects

The SELECT of a READ is read back with all its clauses, unless MySQL or SQLite is
given an OFFSET without a LIMIT.
-/
namespace AltrStream.Lowering
open Foundations Python QueryEngine Semantics

/-! ### Clauses -/

section
open SqlToken
variable {src : SqlSource}

/-- What follows the last clause before the window. -/
def windowTokens (limit offset : Option ℤ) : List SqlToken :=
  limitTokens limit ++ (offsetTokens offset ++ [semicolon])

theorem listTokens_cons_cons (p p' : List SqlToken) (ps : List (List SqlToken)) :
    listTokens (p :: p' :: ps) = p ++ comma :: listTokens (p' :: ps) := by
  rw [listTokens, List.intercalate_cons_cons, List.append_assoc]
  rfl

theorem listTokens_singleton (p : List SqlToken) : listTokens [p] = p := by
  simp [listTokens]

theorem readItems_listTokens {items : List (String × Option String)} (h : items ≠ [])
    (ts : List SqlToken) :
    readItems (listTokens (items.map itemTokens) ++ word .from_ :: ts) =
      some (items, word .from_ :: ts) := by
  induction items with
  | nil => exact absurd rfl h
  | cons item items ih =>
    obtain ⟨c, a⟩ := item
    cases items with
    | nil =>
      rw [List.map_singleton, listTokens_singleton]
      cases a <;> simp [itemTokens, readItems]
    | cons item' items =>
      have hrest := ih (List.cons_ne_nil _ _)
      rw [List.map_cons] at hrest
      rw [List.map_cons, List.map_cons, listTokens_cons_cons, List.append_assoc, List.cons_append]
      generalize listTokens (itemTokens item' :: items.map itemTokens) ++ word .from_ :: ts = us
        at hrest ⊢
      cases a <;> simp [itemTokens, readItems, hrest]

theorem readProjection_tokens (items : List (String × Option String)) (ts : List SqlToken) :
    readProjection ((if items = [] then [SqlToken.star] else listTokens (items.map itemTokens)) ++
      word .from_ :: ts) = some (items, word .from_ :: ts) := by
  split_ifs with hitems
  · subst hitems
    rfl
  · have hread := readItems_listTokens hitems ts
    obtain ⟨c, us, hus⟩ : ∃ c us, listTokens (items.map itemTokens) = name c :: us := by
      cases items with
      | nil => exact absurd rfl hitems
      | cons item items =>
        cases items with
        | nil => exact ⟨_, _, by rw [List.map_singleton, listTokens_singleton]; rfl⟩
        | cons item' items =>
          exact ⟨_, _, by rw [List.map_cons, List.map_cons, listTokens_cons_cons]; rfl⟩
    rw [hus] at hread ⊢
    exact hread

/-- A dialect's ORDER BY may have these keys. -/
def OrderKey.Written (src : SqlSource) (key : OrderKey) : Prop :=
  src = .mysql → key.nullsFirst = none

theorem readOrderKey_tokens {key : OrderKey} (h : key.Written src) {rest : List SqlToken}
    (hrest : readNulls src rest = (none, rest)) :
    readOrderKey src (key.tokens ++ rest) = some (key, rest) := by
  obtain ⟨column, direction, nullsFirst⟩ := key
  have hnulls : readNulls src (nullsTokens nullsFirst ++ rest) = (nullsFirst, rest) := by
    rcases nullsFirst with _ | _ | _
    · exact hrest
    · have hsrc : src ≠ .mysql := fun heq => nomatch h heq
      simp [nullsTokens, readNulls, hsrc]
    · have hsrc : src ≠ .mysql := fun heq => nomatch h heq
      simp [nullsTokens, readNulls, hsrc]
  cases direction <;>
    simp [OrderKey.tokens, directionWord, readOrderKey, hnulls]

theorem readOrderKeys_tokens {keys : List OrderKey} (hne : keys ≠ [])
    (h : ∀ key ∈ keys, key.Written src) {rest : List SqlToken}
    (hnulls : readNulls src rest = (none, rest)) (hcomma : rest.head? ≠ some comma) {n : ℕ}
    (hn : keys.length ≤ n) :
    readOrderKeys src n (listTokens (keys.map OrderKey.tokens) ++ rest) = some (keys, rest) := by
  induction keys generalizing n with
  | nil => exact absurd rfl hne
  | cons key keys ih =>
    obtain ⟨hkey, hkeys⟩ := List.forall_mem_cons.1 h
    obtain ⟨n, rfl⟩ : ∃ k, n = k + 1 := ⟨n - 1, by simp at hn; omega⟩
    cases keys with
    | nil =>
      rw [List.map_singleton, listTokens_singleton, readOrderKeys, readOrderKey_tokens hkey hnulls]
      cases rest with
      | nil => rfl
      | cons t rest =>
        have ht : t ≠ comma := fun heq => hcomma (congrArg some heq)
        split <;> simp_all
    | cons key' keys =>
      have hlength : (key' :: keys).length ≤ n := by simpa using hn
      have hrest := ih (List.cons_ne_nil _ _) hkeys hlength
      rw [List.map_cons] at hrest
      rw [List.map_cons, List.map_cons, listTokens_cons_cons, List.append_assoc, List.cons_append,
        readOrderKeys, readOrderKey_tokens hkey rfl]
      simp only [hrest, Option.map_some]

theorem readNulls_windowTokens (limit offset : Option ℤ) :
    readNulls src (windowTokens limit offset) = (none, windowTokens limit offset) := by
  cases limit <;> cases offset <;> rfl

theorem head?_windowTokens (limit offset : Option ℤ) :
    (windowTokens limit offset).head? ≠ some comma ∧
      (windowTokens limit offset).head? ≠ some (word .and) ∧
      (windowTokens limit offset).head? ≠ some (word .or) := by
  cases limit <;> cases offset <;> exact ⟨nofun, nofun, nofun⟩

theorem length_le_listTokens (keys : List OrderKey) :
    keys.length ≤ (listTokens (keys.map OrderKey.tokens)).length := by
  induction keys with
  | nil => exact Nat.zero_le _
  | cons key keys ih =>
    cases keys with
    | nil =>
      rw [List.map_singleton, listTokens_singleton]
      simp [OrderKey.tokens]
    | cons key' keys =>
      rw [List.map_cons, List.map_cons, listTokens_cons_cons]
      rw [List.map_cons] at ih
      simp only [List.length_append, List.length_cons] at ih ⊢
      omega

theorem readOrderBy_tokens {keys : List OrderKey} (h : ∀ key ∈ keys, key.Written src)
    (limit offset : Option ℤ) :
    readOrderBy src (orderTokens keys ++ windowTokens limit offset) =
      some (keys, windowTokens limit offset) := by
  unfold orderTokens
  split_ifs with hkeys
  · subst hkeys
    cases limit <;> cases offset <;> rfl
  · refine readOrderKeys_tokens hkeys h (readNulls_windowTokens limit offset)
      (head?_windowTokens limit offset).1 ?_
    change keys.length ≤ (listTokens (keys.map OrderKey.tokens) ++ windowTokens limit offset).length
    rw [List.length_append]
    exact (length_le_listTokens keys).trans (Nat.le_add_right _ _)

theorem head?_orderTokens (keys : List OrderKey) (limit offset : Option ℤ) :
    (orderTokens keys ++ windowTokens limit offset).head? ≠ some (word .and) ∧
      (orderTokens keys ++ windowTokens limit offset).head? ≠ some (word .or) := by
  unfold orderTokens
  split_ifs with hkeys
  · exact (head?_windowTokens limit offset).2
  · exact ⟨nofun, nofun⟩

theorem readWhere_tokens {w : Option Condition} (h : ∀ c ∈ w, c.Whole) (keys : List OrderKey)
    (limit offset : Option ℤ) :
    readWhere (whereTokens w ++ (orderTokens keys ++ windowTokens limit offset)) =
      some (w.map Condition.tree, orderTokens keys ++ windowTokens limit offset) := by
  obtain ⟨hand, hor⟩ := head?_orderTokens keys limit offset
  cases w with
  | none =>
    unfold orderTokens
    split_ifs with hkeys
    · cases limit <;> cases offset <;> rfl
    · rfl
  | some c =>
    have hread := (h c rfl).readCondition hand hor
    simp only [whereTokens, Option.elim_some, List.cons_append, readWhere, hread, Option.map_some]

/-- OFFSET stands behind LIMIT, or the dialect takes it alone. -/
def WindowFits (src : SqlSource) (limit offset : Option ℤ) : Prop :=
  src = .postgresql ∨ offset = none ∨ limit.isSome

instance (src : SqlSource) (limit offset : Option ℤ) : Decidable (WindowFits src limit offset) :=
  inferInstanceAs (Decidable (_ ∨ _ ∨ _))

theorem readWindow_tokens {limit offset : Option ℤ} (hlimit : ∀ n ∈ limit, 0 ≤ n)
    (hoffset : ∀ n ∈ offset, 0 ≤ n) :
    readWindow src (windowTokens limit offset) =
      if WindowFits src limit offset then some (limit.map Int.toNat, offset.map Int.toNat, [semicolon])
      else none := by
  have hcount : ∀ n : ℤ, 0 ≤ n → readCount n = some n.toNat := fun n hn => if_pos hn
  cases limit with
  | none =>
    cases offset with
    | none => simp [windowTokens, limitTokens, offsetTokens, readWindow, WindowFits]
    | some m =>
      have hm := hcount m (hoffset m rfl)
      simp [windowTokens, limitTokens, offsetTokens, readWindow, WindowFits, hm]
  | some n =>
    have hn := hcount n (hlimit n rfl)
    cases offset with
    | none => simp [windowTokens, limitTokens, offsetTokens, readWindow, WindowFits, hn]
    | some m =>
      have hm := hcount m (hoffset m rfl)
      simp [windowTokens, limitTokens, offsetTokens, readWindow, WindowFits, hn, hm]

/-- The reader takes every clause of a SELECT, unless its OFFSET stands alone where it may not. -/
theorem readSelect_tokens {items : List (String × Option String)} {table : String}
    {w : Option Condition} {orderBy : List OrderItem} {limit offset : Option ℤ}
    (hw : ∀ c ∈ w, c.Whole) (hkeys : ∀ o ∈ orderBy, (OrderItem.key o).Written src)
    (hlimit : ∀ n ∈ limit, 0 ≤ n) (hoffset : ∀ n ∈ offset, 0 ≤ n) :
    readSelect src (SqlStatement.select items table w orderBy limit offset).tokens =
      if WindowFits src limit offset then
        some ⟨items, table, w.map Condition.tree, orderBy.map OrderItem.key, limit.map Int.toNat,
          offset.map Int.toNat⟩
      else none := by
  have hwhere := readWhere_tokens hw (orderBy.map OrderItem.key) limit offset
  have horder := readOrderBy_tokens (List.forall_mem_map.2 hkeys) limit offset
  have hwindow := @readWindow_tokens src limit offset hlimit hoffset
  rw [windowTokens] at hwhere horder hwindow
  rw [SqlStatement.tokens, readSelect, readProjection_tokens]
  simp only [Option.bind_eq_bind, Option.bind_some, readFrom, hwhere, horder, hwindow]
  split_ifs <;> rfl

/-! ### Texts -/

variable {d : SqlDialect}

/-- A clause that may be left out, with the blank before it. -/
def Clause (d : SqlDialect) (ts : List SqlToken) (s : String) : Prop :=
  ts = [] ∧ s = "" ∨ ∃ s', Phrase d ts s' ∧ s = " " ++ s'

theorem Phrase.clause {ts us : List SqlToken} {s s' : String} (h : Phrase d ts s)
    (h' : Clause d us s') : Phrase d (ts ++ us) (s ++ s') := by
  rcases h' with ⟨rfl, rfl⟩ | ⟨s', h', rfl⟩
  · rwa [List.append_nil, String.append_empty]
  · exact h.append h'

theorem Phrase.end {ts : List SqlToken} {s : String} (h : Phrase d ts s) :
    spell d (ts ++ [semicolon]) = s ++ ";" := by
  obtain ⟨rfl, -, ts', t, rfl, -⟩ := h
  have hglued : blank t semicolon = "" := by
    have : glued t semicolon = true := by cases t <;> rfl
    rw [blank, this]
    rfl
  rw [List.append_assoc, List.singleton_append, spell_append_cons, hglued, String.append_empty]
  rfl

theorem phrase_name (text : String) : Phrase d [name text] text :=
  Phrase.token (.name text) (by simp) (by simp)

theorem phrase_projection (items : List (String × Option String)) :
    Phrase d (if items = [] then [SqlToken.star] else listTokens (items.map itemTokens))
      (if items.isEmpty then "*" else
        ", ".intercalate (items.map fun i => i.1 ++ i.2.elim "" fun a => s!" AS {a}")) := by
  have hitem : ∀ i ∈ items, Phrase d (itemTokens i) (i.1 ++ i.2.elim "" fun a => s!" AS {a}") := by
    rintro ⟨c, a⟩ -
    cases a with
    | none => exact (phrase_name c).regroup (by simp)
    | some a =>
      exact ((phrase_name c).append ((Phrase.word .as).append (phrase_name a))).regroup
        (by simp [toString, SqlWord.text])
  split_ifs with hnil hempty hempty
  · exact Phrase.token .star (by simp) (by simp)
  · exact absurd (List.isEmpty_iff.2 hnil) hempty
  · exact absurd (List.isEmpty_iff.1 hempty) hnil
  · exact Phrase.list hnil hitem

theorem clause_where {w : Option Condition} (h : ∀ c ∈ w, c.Whole) :
    Clause d (whereTokens w) (d.whereText w) := by
  cases w with
  | none => exact .inl ⟨rfl, rfl⟩
  | some c =>
    refine .inr ⟨"WHERE" ++ (" " ++ d.render c), (Phrase.word .where_).append (h c rfl).filled.phrase,
      String.toList_inj.1 ?_⟩
    simp [SqlDialect.whereText, toString]

/-- What may follow the direction of an entry. -/
def OrderItem.Spelled (o : OrderItem) : Prop := o.nulls ∈ ["", " NULLS FIRST", " NULLS LAST"]

theorem phrase_orderItem {o : OrderItem} (h : o.Spelled) :
    Phrase d (OrderItem.key o).tokens s!"{o.column} {o.direction.value}{o.nulls}" := by
  obtain ⟨column, direction, nulls⟩ := o
  have hdirection : Phrase d [word (directionWord direction)] direction.value := by
    cases direction <;> exact Phrase.word _
  have hkey := (phrase_name column).append hdirection
  simp only [OrderItem.Spelled, List.mem_cons, List.not_mem_nil, or_false] at h
  rcases h with rfl | rfl | rfl
  · exact hkey.regroup (by simp [toString])
  · exact (hkey.append ((Phrase.word .nulls).append (Phrase.word .first))).regroup
      (by simp [toString, SqlWord.text])
  · exact (hkey.append ((Phrase.word .nulls).append (Phrase.word .last))).regroup
      (by simp [toString, SqlWord.text])

theorem clause_order {orderBy : List OrderItem} (h : ∀ o ∈ orderBy, o.Spelled) :
    Clause d (orderTokens (orderBy.map OrderItem.key)) (if orderBy.isEmpty then ""
      else " ORDER BY " ++ ", ".intercalate
        (orderBy.map fun o => s!"{o.column} {o.direction.value}{o.nulls}")) := by
  cases orderBy with
  | nil => exact .inl ⟨rfl, rfl⟩
  | cons o orderBy =>
    have hlist := @Phrase.list d _ (fun o => (OrderItem.key o).tokens)
      (fun o => s!"{o.column} {o.direction.value}{o.nulls}") (o :: orderBy) (List.cons_ne_nil _ _)
      fun o ho => phrase_orderItem (h o ho)
    have hclause := (Phrase.word .order).append ((Phrase.word .by).append hlist)
    have htokens : orderTokens ((o :: orderBy).map OrderItem.key) = [word .order] ++ ([word .by] ++
        listTokens ((o :: orderBy).map fun o => (OrderItem.key o).tokens)) := by
      rw [orderTokens, if_neg (by simp), List.map_map]
      rfl
    rw [htokens, if_neg (by simp)]
    refine .inr ⟨_, hclause, ?_⟩
    generalize ", ".intercalate ((o :: orderBy).map fun o =>
      s!"{o.column} {o.direction.value}{o.nulls}") = text
    refine String.toList_inj.1 ?_
    simp [SqlWord.text]

theorem clause_limit (limit : Option ℤ) :
    Clause d (limitTokens limit) (limit.elim "" fun n => s!" LIMIT {n}") := by
  cases limit with
  | none => exact .inl ⟨rfl, rfl⟩
  | some n =>
    exact .inr ⟨_, (Phrase.word .limit).append (Phrase.token (.number n) (by simp) (by simp)),
      String.toList_inj.1 (by simp [SqlWord.text, SqlToken.text, toString])⟩

theorem clause_offset (offset : Option ℤ) :
    Clause d (offsetTokens offset) (offset.elim "" fun n => s!" OFFSET {n}") := by
  cases offset with
  | none => exact .inl ⟨rfl, rfl⟩
  | some n =>
    exact .inr ⟨_, (Phrase.word .offset).append (Phrase.token (.number n) (by simp) (by simp)),
      String.toList_inj.1 (by simp [SqlWord.text, SqlToken.text, toString])⟩

/-- The text of a SELECT is that of its tokens. -/
theorem spell_select {items : List (String × Option String)} {table : String}
    {w : Option Condition} {orderBy : List OrderItem} {limit offset : Option ℤ}
    (hw : ∀ c ∈ w, c.Whole) (horder : ∀ o ∈ orderBy, o.Spelled) :
    spell d (SqlStatement.select items table w orderBy limit offset).tokens =
      d.statementText (.select items table w orderBy limit offset) := by
  have hselect := (Phrase.word .select).append (@phrase_projection d items)
  have hfrom := hselect.append ((Phrase.word .from_).append (phrase_name table))
  have hall := (((hfrom.clause (clause_where hw)).clause (clause_order horder)).clause
    (clause_limit limit)).clause (clause_offset offset)
  have htokens : (SqlStatement.select items table w orderBy limit offset).tokens =
      (((([word .select] ++
        (if items = [] then [SqlToken.star] else listTokens (items.map itemTokens))) ++
          ([word .from_] ++ [name table])) ++ whereTokens w ++
            orderTokens (orderBy.map OrderItem.key)) ++ limitTokens limit ++ offsetTokens offset) ++
              [semicolon] := by
    simp [SqlStatement.tokens]
  have hselectText : "SELECT " = "SELECT" ++ " " := by decide +kernel
  have hfromText : " FROM " = " " ++ ("FROM" ++ " ") := by decide +kernel
  rw [htokens, hall.end]
  unfold SqlDialect.statementText
  dsimp only [SqlWord.text, toString]
  rw [hselectText, hfromText]
  simp only [String.append_assoc]

end

/-! ### Names -/

section
variable {quote : Char} {text out rest : List Char}

/-- What is read is followed by a quote, or at least one quote in it was doubled. -/
theorem readQuoted_eq_some (h : readQuoted quote text = some (out, rest)) :
    quote ∉ out ∧ text = out ++ quote :: rest ∨ out.length + rest.length + 1 < text.length := by
  fun_induction readQuoted quote text generalizing out rest with
  | case1 => cases h
  | case2 => 
    cases h
    exact .inl ⟨List.not_mem_nil, rfl⟩
  | case3 c hc => cases h
  | case4 c c' text hc ih =>
    obtain ⟨⟨o, r⟩, hr, heq⟩ := Option.map_eq_some_iff.1 h
    cases heq
    rcases ih hr with ⟨hmem, htext⟩ | hlt
    · exact .inl ⟨by simpa [Ne.symm hc] using hmem, by rw [htext]; rfl⟩
    · exact .inr (by simp only [List.length_cons] at hlt ⊢; omega)
  | case5 c' text hc ih =>
    obtain ⟨⟨o, r⟩, hr, heq⟩ := Option.map_eq_some_iff.1 h
    cases heq
    refine .inr ?_
    rcases ih hr with ⟨-, rfl⟩ | hlt
    · simp only [List.length_cons, List.length_append]
      omega
    · simp only [List.length_cons] at hlt ⊢
      omega
  | case6 c c' text hc hc' => 
    cases h
    exact .inl ⟨List.not_mem_nil, by rw [not_not.1 hc]; rfl⟩

/-- A name that is quoted as it stands is read back exactly if the quote is not in it. -/
theorem readQuoted_plain_iff :
    readQuoted quote (text ++ [quote]) = some (text, []) ↔ quote ∉ text := by
  constructor
  · intro h
    rcases readQuoted_eq_some h with ⟨hmem, -⟩ | hlt
    · exact hmem
    · simp at hlt
  · intro h
    induction text with
    | nil => simp [readQuoted]
    | cons c text ih =>
      obtain ⟨hc, htext⟩ := List.ne_and_not_mem_of_not_mem_cons h
      have hrest := ih htext
      cases text with
      | nil => simp [readQuoted, Ne.symm hc]
      | cons c' text =>
        rw [List.cons_append] at hrest
        simp [readQuoted, Ne.symm hc, hrest]

/-- A name whose quotes are doubled is read back. -/
theorem readQuoted_doubled (text : List Char) :
    readQuoted quote (replaceChar quote [quote, quote] text ++ [quote]) = some (text, []) := by
  induction text with
  | nil => simp [replaceChar, readQuoted]
  | cons c text ih =>
    rw [replaceChar, List.flatMap_cons, ← replaceChar]
    obtain ⟨c', rest, hrest⟩ : ∃ c' rest,
        replaceChar quote [quote, quote] text ++ [quote] = c' :: rest :=
      List.exists_cons_of_ne_nil (by simp)
    split_ifs with hc
    · subst hc
      simp [readQuoted, ih]
    · rw [hrest] at ih
      simp [readQuoted, hc, hrest, ih]

end

/-- PostgreSQL's names are read back unless there is a double quote in them. -/
theorem SqlSource.names_quoteIdent_iff (src : SqlSource) (name : String) :
    src.Names (src.dialect.quoteIdent name) name ↔ src.Quotable name := by
  have hbody : ∀ body : List Char,
      (src.dialect.quoteIdent name).toList = src.nameQuote :: (body ++ [src.nameQuote]) →
      (src.Names (src.dialect.quoteIdent name) name ↔
        readQuoted src.nameQuote (body ++ [src.nameQuote]) = some (name.toList, [])) := by
    intro body hbody
    unfold SqlSource.Names
    simp [hbody]
  cases src with
  | postgresql =>
    rw [hbody name.toList (by simp [dialect, lowerer, PostgreSQL.lowerer, PostgreSQL.dialect,
      PostgreSQL.quoteIdent, toString, nameQuote]), readQuoted_plain_iff]
    simp [Quotable, nameQuote]
  | mysql =>
    rw [hbody (replaceChar '\x60' ['\x60', '\x60'] name.toList) (by simp [dialect, lowerer,
      MySQL.lowerer, MySQL.dialect, MySQL.quoteIdent, toString, nameQuote])]
    simp [Quotable, nameQuote, readQuoted_doubled]
  | sqlite =>
    rw [hbody (replaceChar '"' ['"', '"'] name.toList) (by simp [dialect, lowerer,
      SQLite.lowerer, SQLite.dialect, SQLite.quoteIdent, toString, nameQuote])]
    simp [Quotable, nameQuote, readQuoted_doubled]

/-! ### READs -/

/-- The count or the LIMIT of a query. -/
def rowLimit (q : BoundAltrQueryIR) : Option ℤ := (q.ranking.map (·.count)).orElse fun _ => q.limit

/-- The reader takes the SELECT with the clauses of the query, and returns its part of the rows. -/
structure SqlSource.Expresses (src : SqlSource) (q : BoundAltrQueryIR) (parameters : List Scalar)
    (sel : ReadSelect) : Prop where
  items : sel.items = q.projection.map src.lowerer.selectItem
  table : sel.table = src.lowerer.targetTable q.entity
  where_ : match q.where_, sel.where_ with
    | none, none => True
    | some e, some t => Replaced src e [] t parameters
    | _, _ => False
  orderBy : sel.orderBy = (src.lowerer.orderItems q).map OrderItem.key
  window : ∀ {α : Type} (rows : List α), sel.window rows =
    (rowLimit q).elim id (fun n => List.take n.toNat) (rows.drop (q.offset.getD 0).toNat)

/-- The text is the tokens of a SELECT that expresses the query, with each name in quotes. -/
structure SqlSource.IsSelect (src : SqlSource) (q : BoundAltrQueryIR) (p : PhysicalQuery) : Prop where
  text : SqlToken.spell src.dialect p.statement.tokens = p.query
  names : ∀ name ∈ identifiers q, src.Names (src.dialect.quoteIdent name) name
  read : ∃ sel, readSelect src p.statement.tokens = some sel ∧ src.Expresses q p.parameters sel

/-- A READ is lowered to a SELECT of the dialect. -/
def SqlSource.LowersToSelect (src : SqlSource) (q : BoundAltrQueryIR) : Prop :=
  ∃ p, src.lowerer.lower q = .ok (.single p) ∧ src.IsSelect q p

/-- MySQL and SQLite are not given an OFFSET without a LIMIT or a ranking. -/
def SqlSource.OffsetFits (src : SqlSource) (q : BoundAltrQueryIR) : Prop :=
  src = .postgresql ∨ q.offset = none ∨ q.limit.isSome ∨ q.ranking.isSome

/-- A bound READ has a positive limit, if any, and skips a natural number of rows. -/
theorem Bound.window_pos {q : BoundAltrQueryIR} (h : Bound q) (hread : q.operation = .read) :
    (∀ n ∈ rowLimit q, 0 < n) ∧ ∀ n ∈ q.offset, 0 ≤ n := by
  obtain ⟨u, text, ir, schema, hparse, hbind⟩ := h
  have hvalid := (parseAltrql_eq_ok u hparse).1
  have hkept : q.operation = ir.operation ∧ q.limit = ir.limit ∧ q.offset = ir.offset ∧
      q.ranking.map (·.count) = ir.ranking.map (·.count) := by
    rcases hbind with hbind | ⟨py, mapping, physical, hresolve, hbind⟩
    · exact bindAltrql_window hbind
    · obtain ⟨hop, hlimit, hoffset, hranking⟩ := bindAltrql_window hbind
      obtain ⟨hop', hlimit', hoffset', hranking'⟩ := resolveLogicalIr_window hresolve
      exact ⟨hop.trans hop', hlimit.trans hlimit', hoffset.trans hoffset',
        hranking.trans hranking'⟩
  obtain ⟨hop, hlimit, hoffset, hranking⟩ := hkept
  obtain ⟨hlimits, hoffsets, hcounts⟩ := validateIr_window hvalid (hop ▸ hread)
  rw [← hlimit] at hlimits
  rw [← hoffset] at hoffsets
  rw [← hranking] at hcounts
  refine ⟨fun n hn => ?_, hoffsets⟩
  unfold rowLimit at hn
  cases hq : q.ranking.map (·.count) with
  | none =>
    rw [hq] at hn
    exact hlimits n hn
  | some m =>
    rw [hq] at hn
    obtain rfl : m = n := by simpa using hn
    exact hcounts m hq

/-- The window of a bound READ is made of natural numbers. -/
theorem Bound.window {q : BoundAltrQueryIR} (h : Bound q) (hread : q.operation = .read) :
    (∀ n ∈ rowLimit q, 0 ≤ n) ∧ ∀ n ∈ q.offset, 0 ≤ n :=
  ⟨fun n hn => ((h.window_pos hread).1 n hn).le, (h.window_pos hread).2⟩

theorem isSome_rowLimit (q : BoundAltrQueryIR) :
    (rowLimit q).isSome ↔ q.limit.isSome ∨ q.ranking.isSome := by
  unfold rowLimit
  cases q.ranking <;> simp

theorem spelled_orderItems (src : SqlSource) (q : BoundAltrQueryIR) :
    ∀ o ∈ src.lowerer.orderItems q, o.Spelled ∧ (OrderItem.key o).Written src := by
  have hnone : ∀ column direction, (⟨column, direction, ""⟩ : OrderItem).Spelled ∧
      (OrderItem.key ⟨column, direction, ""⟩).Written src := fun _ _ =>
    ⟨by simp [OrderItem.Spelled], fun _ => rfl⟩
  intro o ho
  simp only [SqlLowerer.orderItems, List.mem_append, List.mem_map] at ho
  rcases ho with (⟨r, -, rfl⟩ | ⟨s, -, rfl⟩) | ho
  · exact hnone _ _
  · cases src with
    | postgresql =>
      refine ⟨?_, by rintro ⟨⟩⟩
      cases s.direction <;>
        simp [OrderItem.Spelled, SqlSource.lowerer, PostgreSQL.lowerer, PostgreSQL.nullOrder]
    | mysql => exact hnone _ _
    | sqlite => exact hnone _ _
  · split at ho
    · obtain ⟨pk, -, rfl⟩ := List.mem_map.1 ho
      exact hnone _ _
    · cases ho

/-- The condition of a WHERE is whole, and its tree is that of the query. -/
theorem whole_lowerWhere {src : SqlSource} {q : BoundAltrQueryIR}
    (hleaves : ∀ e ∈ q.where_, ∀ leaf ∈ e.atoms, leaf.operand.WellFormed) {w : Option Condition}
    {parameters : List Scalar} (h : src.lowerer.lowerWhere q.where_ [] = .ok (w, parameters)) :
    (∀ c ∈ w, c.Whole) ∧ match q.where_, w.map Condition.tree with
      | none, none => True
      | some e, some t => Replaced src e [] t parameters
      | _, _ => False := by
  cases he : q.where_ with
  | none =>
    rw [he] at h
    obtain ⟨rfl, -⟩ := run_pure_eq_ok.1 h
    exact ⟨fun _ hc => (nomatch hc), trivial⟩
  | some e =>
    rw [he] at h
    obtain ⟨c, after, hrun, hpure⟩ := run_bind_eq_ok.1 h
    obtain ⟨rfl, rfl⟩ := run_pure_eq_ok.1 hpure
    obtain ⟨hwhole, htree⟩ := src.whole_lowerExpression (hleaves e he) hrun
    exact ⟨fun c hc => Option.mem_some_iff.1 hc ▸ hwhole, htree⟩

/-- What a READ is lowered to is a SELECT of the dialect exactly if its names can be quoted and its
OFFSET may stand. -/
theorem isSelect_iff_of_leaves {src : SqlSource} {q : BoundAltrQueryIR} {p : PhysicalQuery}
    (hleaves : ∀ e ∈ q.where_, ∀ leaf ∈ e.atoms, leaf.operand.WellFormed)
    (hwindow : (∀ n ∈ rowLimit q, 0 ≤ n) ∧ ∀ n ∈ q.offset, 0 ≤ n) (hread : q.operation = .read)
    (h : src.lowerer.lower q = .ok (.single p)) :
    src.IsSelect q p ↔ (∀ name ∈ identifiers q, src.Quotable name) ∧ src.OffsetFits q := by
  obtain ⟨w, parameters, hwhere, rfl⟩ := (src.lowerer.lower_read_iff hread p).1 h
  obtain ⟨hwhole, htree⟩ := whole_lowerWhere hleaves hwhere
  obtain ⟨hlimit, hoffset⟩ := hwindow
  have horder := spelled_orderItems src q
  have hselect := @readSelect_tokens src (q.projection.map src.lowerer.selectItem)
    (src.lowerer.targetTable q.entity) w (src.lowerer.orderItems q) (rowLimit q) q.offset hwhole
    (fun o ho => (horder o ho).2) hlimit hoffset
  have hfits : WindowFits src (rowLimit q) q.offset ↔ src.OffsetFits q := by
    rw [WindowFits, isSome_rowLimit]
    rfl
  have hnames : (∀ name ∈ identifiers q, src.Names (src.dialect.quoteIdent name) name) ↔
      ∀ name ∈ identifiers q, src.Quotable name :=
    forall₂_congr fun name _ => src.names_quoteIdent_iff name
  rw [← hnames, ← hfits]
  constructor
  · rintro ⟨-, hnames, sel, hsel, -⟩
    refine ⟨hnames, ?_⟩
    by_contra hwindow
    rw [if_neg hwindow] at hselect
    cases hselect.symm.trans hsel
  · rintro ⟨hnames, hwindow⟩
    rw [if_pos hwindow] at hselect
    refine ⟨spell_select hwhole fun o ho => (horder o ho).1, hnames, _, hselect, rfl, rfl, htree, rfl,
      fun rows => ?_⟩
    unfold ReadSelect.window
    cases rowLimit q <;> cases q.offset <;> rfl

theorem isSelect_iff {src : SqlSource} {q : BoundAltrQueryIR} {p : PhysicalQuery} (hq : Bound q)
    (hread : q.operation = .read) (h : src.lowerer.lower q = .ok (.single p)) :
    src.IsSelect q p ↔ (∀ name ∈ identifiers q, src.Quotable name) ∧ src.OffsetFits q :=
  isSelect_iff_of_leaves (fun _ he _ hleaf => (hq.leaves he hleaf).1) (hq.window hread) hread h

/-- All but a CREATE is lowered to one statement. -/
theorem SqlLowerer.single_of_lower (L : SqlLowerer) {q : BoundAltrQueryIR} (hop : q.operation ≠ .create)
    {r : PhysicalQueryResult} (hr : L.lower q = .ok r) :
    ∃ p, r = .single p ∧ L.physicalQuery q (L.lowerStatement q) = .ok p := by
  unfold SqlLowerer.lower at hr
  rw [if_neg hop] at hr
  obtain ⟨p, hp, hr⟩ := bind_eq_ok.1 hr
  exact ⟨p, (pure_eq_ok.1 hr).symm, hp⟩

/-- A READ is lowered to a SELECT of the dialect exactly if its leaves can be lowered, its names can
be quoted and it has no OFFSET alone where the dialect has none. -/
theorem SqlSource.lowersToSelect_iff (src : SqlSource) {q : BoundAltrQueryIR} (hq : Bound q)
    (hread : q.operation = .read) : src.LowersToSelect q ↔
      (∀ e ∈ q.where_, ∀ leaf ∈ e.atoms, src.Fits leaf) ∧
        (∀ name ∈ identifiers q, src.Quotable name) ∧ src.OffsetFits q := by
  have hop : q.operation ≠ .create := by simp [hread]
  have hsucceeds := lower_succeeds src.leaf_succeeds q
  simp only [hop, false_or] at hsucceeds
  have hsingle : (∃ p, src.lowerer.lower q = .ok (.single p)) ↔ ∃ r, src.lowerer.lower q = .ok r := by
    refine ⟨fun ⟨p, hp⟩ => ⟨_, hp⟩, fun ⟨r, hr⟩ => ?_⟩
    obtain ⟨p, rfl, -⟩ := src.lowerer.single_of_lower hop hr
    exact ⟨p, hr⟩
  rw [← hsucceeds, ← hsingle]
  constructor
  · rintro ⟨p, hp, hselect⟩
    exact ⟨⟨p, hp⟩, (isSelect_iff hq hread hp).1 hselect⟩
  · rintro ⟨⟨p, hp⟩, hfits⟩
    exact ⟨p, hp, (isSelect_iff hq hread hp).2 hfits⟩

open TestSchema in
/-- `GET users WHERE { age = 18..30 } LIMIT 10 OFFSET 5;` -/
def pageOfUsers : BoundAltrQueryIR :=
  { query .read (.atom ⟨age, .comparison .eq, .range ⟨.integer 18, .integer 30⟩⟩) with
    limit := some 10
    offset := some 5 }

open TestSchema in
theorem lowersToSelect_page : SqlSource.mysql.LowersToSelect pageOfUsers :=
  (SqlSource.lowersToSelect_iff .mysql
    (.of_accepted ⟨.ascii, "GET users WHERE { age = 18..30 } LIMIT 10 OFFSET 5;", schema,
      acceptedFrom_of_run (by decide +kernel)⟩) rfl).2
    ⟨fun e he leaf hleaf => by
      cases he
      cases List.mem_singleton.1 hleaf
      trivial, fun _ _ hsrc => (nomatch hsrc), .inr (.inr (.inl rfl))⟩

open TestSchema in
/-- `GET users OFFSET 5;` is accepted, and what MySQL and SQLite are given is no SELECT. -/
theorem not_lowersToSelect_offset :
    let q := { query .read (.atom ⟨age, .comparison .eq, .literal (.integer 18)⟩) with
      where_ := none
      offset := some 5 }
    AcceptedFrom .ascii "GET users OFFSET 5;" schema q ∧
      ¬ SqlSource.mysql.LowersToSelect q ∧ ¬ SqlSource.sqlite.LowersToSelect q := by
  have hread : ∀ src : SqlSource, src ≠ .postgresql → readSelect src
      (SqlStatement.select [] (src.lowerer.targetTable (boundEntity users)) none
        [⟨src.lowerer.dialect.quoteIdent "id", .asc, ""⟩] none (some 5)).tokens = none := by
    intro src hsrc
    rw [readSelect_tokens (by simp) (by simp [OrderItem.key, OrderKey.Written]) (by simp) (by simp),
      if_neg (by simp [WindowFits, hsrc])]
  refine ⟨acceptedFrom_of_run (by decide +kernel), ?_, ?_⟩
  · rintro ⟨p, hp, hselect⟩
    cases hp
    obtain ⟨sel, hsel, -⟩ := hselect.read
    exact nomatch (hread .mysql (by decide)).symm.trans hsel
  · rintro ⟨p, hp, hselect⟩
    cases hp
    obtain ⟨sel, hsel, -⟩ := hselect.read
    exact nomatch (hread .sqlite (by decide)).symm.trans hsel

end AltrStream.Lowering
