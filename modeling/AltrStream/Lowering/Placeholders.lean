import AltrStream.Lowering.Columns

/-! # Placeholders in the text of a statement

`SqlSource.placeholders` reads the placeholders of a text from left to right, outside
quotes. The text of a statement is put together from quoted names, string literals,
placeholders and fixed text, so its placeholders are those of the parameters among its
operands, in the order of the operands.
-/
namespace AltrStream.Lowering
open Foundations Python QueryEngine Semantics

/-- The place of a parameter in the parameter list. -/
def SqlOperand.index? : SqlOperand → Option ℕ
  | param i => some i
  | _ => none

/-- The placeholders among operands. -/
def indices (xs : List SqlOperand) : List ℕ := xs.filterMap SqlOperand.index?

/-- The operands of a statement in the order of its text. -/
def SqlStatement.operands : SqlStatement → List SqlOperand
  | insert _ _ rows => rows.flatten
  | update _ assignments w => assignments.map (·.2) ++ w.elim [] Condition.operands
  | delete _ w | select _ _ w _ _ _ => w.elim [] Condition.operands

def quotes : List Char := ['"', '\'', '\x60']

theorem isDigit_of_mem_repr {n : ℕ} {c : Char} (h : c ∈ n.repr.toList) : c.isDigit = true :=
  Nat.isDigit_of_mem_toDigits (b := 10) (n := n) (by decide) (by decide) (by rwa [← Nat.toList_repr])

namespace SqlSource

def dialect (src : SqlSource) : SqlDialect := src.lowerer.dialect

/-- The character that every placeholder of the source starts with. -/
def sign : SqlSource → Char
  | postgresql => '$'
  | mysql => '%'
  | sqlite => '?'

/-- The placeholder that a text starts with. -/
def placeholderAt? : SqlSource → List Char → Option String
  | postgresql, '$' :: text =>
    let digits := text.takeWhile Char.isDigit
    if digits.isEmpty then none else some (String.ofList ('$' :: digits))
  | mysql, '%' :: 's' :: _ => some "%s"
  | sqlite, '?' :: _ => some "?"
  | _, _ => none

/-- The placeholders of a text, given the quote that is open. A quote that is doubled inside
quotes closes and opens them again. -/
def placeholders (src : SqlSource) : Option Char → List Char → List String
  | _, [] => []
  | some q, c :: text => src.placeholders (if c = q then none else some q) text
  | none, c :: text =>
    if c ∈ quotes then src.placeholders (some c) text
    else (src.placeholderAt? (c :: text)).toList ++ src.placeholders none text

/-- A name that the source's `quote_ident` puts in quotes as one identifier: PostgreSQL's does
not double the quotes in it. -/
def Quotable (src : SqlSource) (name : String) : Prop := src = .postgresql → '"' ∉ name.toList

/-- A column whose reference is made of one quoted name and string literals: the lexer lets no
quotes into the keys below a JSON column. -/
structure Readable (src : SqlSource) (field : BoundFieldPath) : Prop where
  root : src.Quotable field.path.root
  keys : ∀ k ∈ field.path.keys, '\'' ∉ k.toList

/-- The character around the names of the source. -/
def nameQuote : SqlSource → Char
  | postgresql | sqlite => '"'
  | mysql => '\x60'

theorem placeholderAt?_of_ne {src : SqlSource} {c : Char} (h : c ≠ src.sign) (text : List Char) :
    src.placeholderAt? (c :: text) = none := by
  cases src <;> unfold placeholderAt? <;> split <;> simp_all [sign]

/-- Characters that neither start a placeholder nor open quotes. -/
theorem placeholders_code {src : SqlSource} {s : List Char}
    (h : ∀ c ∈ s, c ≠ src.sign ∧ c ∉ quotes) (rest : List Char) :
    src.placeholders none (s ++ rest) = src.placeholders none rest := by
  induction s with
  | nil => rfl
  | cons c s ih =>
    obtain ⟨⟨hsign, hquote⟩, hs⟩ := List.forall_mem_cons.1 h
    rw [List.cons_append, placeholders, if_neg hquote, placeholderAt?_of_ne hsign, ih hs]
    rfl

/-- Text in quotes. -/
theorem placeholders_quoted {src : SqlSource} {q : Char} {s : List Char} (h : q ∉ s)
    (rest : List Char) : src.placeholders (some q) (s ++ q :: rest) = src.placeholders none rest := by
  induction s with
  | nil => rw [List.nil_append, placeholders, if_pos rfl]
  | cons c s ih =>
    obtain ⟨hc, hs⟩ := List.ne_and_not_mem_of_not_mem_cons h
    rw [List.cons_append, placeholders, if_neg (Ne.symm hc), ih hs]

/-- Text in quotes whose quotes are doubled. -/
theorem placeholders_doubled {src : SqlSource} {q : Char} (hq : q ∈ quotes) (s rest : List Char) :
    src.placeholders (some q) (replaceChar q [q, q] s ++ q :: rest) = src.placeholders none rest := by
  induction s with
  | nil => exact placeholders_quoted (by simp [replaceChar]) rest
  | cons c s ih =>
    rw [replaceChar, List.flatMap_cons, ← replaceChar]
    split
    · rw [List.append_assoc, List.cons_append, List.cons_append, placeholders, if_pos rfl,
        placeholders, if_pos hq, List.nil_append, ih]
    · rename_i hc
      rw [List.append_assoc, List.singleton_append, placeholders, if_neg hc, ih]

/-- A quoted name has no placeholders. -/
theorem placeholders_quoteIdent {src : SqlSource} {name : String} (h : src.Quotable name)
    (rest : List Char) :
    src.placeholders none ((src.dialect.quoteIdent name).toList ++ rest) =
      src.placeholders none rest := by
  have hopen : ∀ s : List Char, src.placeholders (some src.nameQuote) (s ++ src.nameQuote :: rest) =
      src.placeholders none rest →
      src.placeholders none (src.nameQuote :: (s ++ src.nameQuote :: rest)) =
        src.placeholders none rest := fun s hs => by
    rw [placeholders, if_pos (by cases src <;> decide), hs]
  cases src with
  | postgresql =>
    have htext := hopen name.toList (placeholders_quoted (h rfl) rest)
    simpa [dialect, lowerer, PostgreSQL.lowerer, PostgreSQL.dialect, PostgreSQL.quoteIdent,
      toString, nameQuote] using htext
  | mysql =>
    have htext := hopen _ (placeholders_doubled (by decide) name.toList rest)
    simpa [dialect, lowerer, MySQL.lowerer, MySQL.dialect, MySQL.quoteIdent, toString,
      nameQuote] using htext
  | sqlite =>
    have htext := hopen _ (placeholders_doubled (by decide) name.toList rest)
    simpa [dialect, lowerer, SQLite.lowerer, SQLite.dialect, SQLite.quoteIdent, toString,
      nameQuote] using htext

/-- A placeholder that no digit follows. -/
theorem placeholders_placeholder {src : SqlSource} {rest : List Char} (i : ℕ)
    (hrest : ∀ c ∈ rest.head?, c.isDigit = false) :
    src.placeholders none ((src.dialect.placeholder i).toList ++ rest) =
      src.dialect.placeholder i :: src.placeholders none rest := by
  cases src with
  | postgresql =>
    have hdigits : ∀ c ∈ i.repr.toList, c.isDigit = true := fun c hc => isDigit_of_mem_repr hc
    have htake : (i.repr.toList ++ rest).takeWhile Char.isDigit = i.repr.toList := by
      rw [List.takeWhile_append_of_pos hdigits]
      cases rest with
      | nil => simp
      | cons c rest => simp [hrest c rfl]
    have hcode : ∀ c ∈ i.repr.toList, c ≠ SqlSource.postgresql.sign ∧ c ∉ quotes := by
      intro c hc
      have hdigit := hdigits c hc
      constructor
      · rintro rfl
        revert hdigit
        decide
      · intro hquote
        revert hdigit
        simp only [quotes, List.mem_cons, List.not_mem_nil, or_false] at hquote
        rcases hquote with rfl | rfl | rfl <;> decide
    have htext : (PostgreSQL.dialect.placeholder i).toList = '$' :: i.repr.toList := by
      simp [PostgreSQL.dialect, toString]
    change SqlSource.postgresql.placeholders none ((PostgreSQL.dialect.placeholder i).toList ++ rest) =
      PostgreSQL.dialect.placeholder i :: _
    rw [← String.ofList_toList (s := PostgreSQL.dialect.placeholder i), String.toList_ofList, htext,
      List.cons_append, placeholders, if_neg (by decide), placeholderAt?, htake,
      placeholders_code hcode]
    simp
  | mysql =>
    have htext : ((mysql.dialect.placeholder i).toList ++ rest) = '%' :: 's' :: rest := by
      simp [dialect, lowerer, MySQL.lowerer, MySQL.dialect]
    rw [htext, placeholders, if_neg (by decide), placeholders, if_neg (by decide)]
    rfl
  | sqlite =>
    have htext : ((sqlite.dialect.placeholder i).toList ++ rest) = '?' :: rest := by
      simp [dialect, lowerer, SQLite.lowerer, SQLite.dialect]
    rw [htext, placeholders, if_neg (by decide)]
    rfl

end SqlSource

/-- A text whose placeholders have the given numbers, from left to right. No digit follows a
placeholder directly. -/
inductive Spells (src : SqlSource) : List ℕ → String → Prop
  | code (s : String) (h : ∀ c ∈ s.toList, c ≠ src.sign ∧ c ∉ quotes) : Spells src [] s
  | identifier (name : String) (h : src.Quotable name) : Spells src [] (src.dialect.quoteIdent name)
  | literal (s : String) (h : '\'' ∉ s.toList) : Spells src [] ("'" ++ s ++ "'")
  | mark (i : ℕ) : Spells src [i] (src.dialect.placeholder i)
  | append {xs ys : List ℕ} {s t : String} (hs : Spells src xs s) (ht : Spells src ys t)
      (hdigit : xs = [] ∨ ∀ c ∈ t.toList.head?, c.isDigit = false) : Spells src (xs ++ ys) (s ++ t)

namespace Spells
variable {src : SqlSource} {xs ys : List ℕ} {s t : String}

/-- The placeholders of a text in front of another one. -/
theorem placeholders_append (h : Spells src xs s) {rest : List Char}
    (hrest : xs = [] ∨ ∀ c ∈ rest.head?, c.isDigit = false) :
    src.placeholders none (s.toList ++ rest) =
      xs.map src.dialect.placeholder ++ src.placeholders none rest := by
  induction h generalizing rest with
  | code s h => exact SqlSource.placeholders_code h rest
  | identifier name h => exact SqlSource.placeholders_quoteIdent h rest
  | literal s h =>
    have hclose := @SqlSource.placeholders_quoted src _ _ h rest
    rw [String.toList_append, String.toList_append, List.append_assoc, List.append_assoc]
    change src.placeholders none ('\'' :: (s.toList ++ '\'' :: rest)) = _
    rw [SqlSource.placeholders, if_pos (by decide), hclose]
    rfl
  | mark i =>
    exact SqlSource.placeholders_placeholder i (hrest.resolve_left (List.cons_ne_nil _ _))
  | @append xs ys s t hs ht hdigit ihs iht =>
    have hys : ys = [] ∨ ∀ c ∈ rest.head?, c.isDigit = false :=
      hrest.imp_left fun h => (List.append_eq_nil_iff.1 h).2
    have hxs : xs = [] ∨ ∀ c ∈ (t.toList ++ rest).head?, c.isDigit = false := by
      cases htext : t.toList with
      | nil => exact hrest.imp_left fun h => (List.append_eq_nil_iff.1 h).1
      | cons c text => simpa [htext] using hdigit
    rw [String.toList_append, List.append_assoc, ihs hxs, iht hys, List.map_append,
      List.append_assoc]

theorem placeholders_eq (h : Spells src xs s) :
    src.placeholders none s.toList = xs.map src.dialect.placeholder := by
  have hall := @placeholders_append _ _ _ h [] (.inr (by simp))
  simpa [SqlSource.placeholders] using hall

/-- The same characters in another grouping. -/
theorem regroup (hs : Spells src xs s) (h : s.toList = t.toList) : Spells src xs t :=
  String.toList_inj.1 h ▸ hs

/-- A text without placeholders in front. -/
theorem before (hs : Spells src [] s) (ht : Spells src xs t) : Spells src xs (s ++ t) :=
  hs.append ht (.inl rfl)

/-- A text without placeholders behind, which does not start with a digit. -/
theorem behind (hs : Spells src xs s) (ht : Spells src [] t)
    (hdigit : ∀ c ∈ t.toList.head?, c.isDigit = false) : Spells src xs (s ++ t) :=
  List.append_nil xs ▸ hs.append ht (.inr hdigit)

/-- Fixed text that no source's placeholders and no quotes occur in. -/
theorem fixed (src : SqlSource) (s : String)
    (h : ['$', '%', '?', '"', '\'', '\x60'].all (· ∉ s.toList) = true) : Spells src [] s := by
  simp only [List.all_cons, List.all_nil, Bool.and_true, Bool.and_eq_true, decide_eq_true_eq] at h
  obtain ⟨hdollar, hpercent, hquestion, hquotes⟩ := h
  refine .code s fun c hc => ⟨?_, fun hquote => ?_⟩
  · rintro rfl
    cases src with
    | postgresql => exact hdollar hc
    | mysql => exact hpercent hc
    | sqlite => exact hquestion hc
  · simp only [quotes, List.mem_cons, List.not_mem_nil, or_false] at hquote
    rcases hquote with rfl | rfl | rfl
    · exact hquotes.1 hc
    · exact hquotes.2.1 hc
    · exact hquotes.2.2 hc

/-- Two texts with fixed text between them. -/
theorem between (hs : Spells src xs s) (sep : String)
    (hsep : ['$', '%', '?', '"', '\'', '\x60'].all (· ∉ sep.toList) = true)
    (hhead : ∀ c ∈ (sep ++ t).toList.head?, c.isDigit = false) (ht : Spells src ys t) :
    Spells src (xs ++ ys) (s ++ (sep ++ t)) :=
  hs.append ((fixed src sep hsep).before ht) (.inr hhead)

/-- Texts that are joined with commas. -/
theorem intercalate {α : Type} {numbers : α → List ℕ} {text : α → String} {l : List α}
    (h : ∀ a ∈ l, Spells src (numbers a) (text a)) :
    Spells src (l.flatMap numbers) (", ".intercalate (l.map text)) := by
  induction l with
  | nil => exact fixed src "" rfl
  | cons a l ih =>
    have ha := h a (by simp)
    have hl := ih fun b hb => h b (List.mem_cons_of_mem _ hb)
    cases l with
    | nil => simpa using ha
    | cons b l =>
      rw [List.flatMap_cons, List.map_cons, List.map_cons, String.intercalate_cons_cons,
        String.append_assoc]
      exact ha.between ", " rfl (by simp) hl

/-- Names that are joined with commas. -/
theorem names {α : Type} {text : α → String} {l : List α} (h : ∀ a ∈ l, Spells src [] (text a)) :
    Spells src [] (", ".intercalate (l.map text)) := by
  have hnil : l.flatMap (fun _ => ([] : List ℕ)) = [] := List.flatMap_eq_nil_iff.2 fun _ _ => rfl
  exact hnil ▸ intercalate h

end Spells

/-! ### Conditions -/

section
variable (src : SqlSource)

/-- The current day or time as the source writes it. -/
theorem spells_current (k : TemporalKeyword) : Spells src [] (src.dialect.current k) := by
  cases src with
  | sqlite =>
    have hcall : ∀ f : String, ['$', '%', '?', '"', '\'', '\x60'].all (· ∉ f.toList) = true →
        Spells .sqlite [] (f ++ ("'" ++ "now" ++ "'" ++ ")")) := fun f hf =>
      (Spells.fixed _ f hf).before ((Spells.literal "now" (by decide)).before (.fixed _ ")" rfl))
    cases k with
    | today => exact (hcall "DATE(" (by decide)).regroup (by decide)
    | now => exact (hcall "DATETIME(" (by decide)).regroup (by decide)
  | _ => cases k <;> exact .fixed _ _ (by decide)

theorem spells_operand (x : SqlOperand) : Spells src (indices [x]) (src.dialect.operandText x) := by
  cases x with
  | param i => exact .mark i
  | null => exact .fixed src "NULL" rfl
  | current k => exact spells_current src k

theorem indices_append (xs ys : List SqlOperand) : indices (xs ++ ys) = indices xs ++ indices ys :=
  List.filterMap_append

theorem flatMap_indices (xs : List SqlOperand) : xs.flatMap (fun x => indices [x]) = indices xs := by
  induction xs with
  | nil => rfl
  | cons x xs ih => rw [List.flatMap_cons, ih, ← indices_append, List.singleton_append]

theorem spells_listText (xs : List SqlOperand) :
    Spells src (indices xs) (src.dialect.listText xs) :=
  flatMap_indices xs ▸ Spells.intercalate fun x _ => spells_operand src x

/-- The keys of a JSON path in one literal. -/
theorem quote_not_mem_path {keys : List String} (hkeys : ∀ k ∈ keys, '\'' ∉ k.toList) :
    '\'' ∉ ("$." ++ ".".intercalate keys).toList := by
  have hjoined : '\'' ∉ (".".intercalate keys).toList := by
    induction keys with
    | nil => simp
    | cons k keys ih =>
      obtain ⟨hk, hrest⟩ := List.forall_mem_cons.1 hkeys
      cases keys with
      | nil => simpa using hk
      | cons k' keys =>
        rw [String.intercalate_cons_cons, String.toList_append, String.toList_append]
        simp only [List.mem_append, not_or]
        exact ⟨⟨hk, by decide⟩, ih hrest⟩
  rw [String.toList_append, List.mem_append, not_or]
  exact ⟨by decide, hjoined⟩

/-- The reference to a JSON value, from the text of its root column. -/
theorem spells_nestedPath {root : String} (hroot : Spells src [] root) {keys : List String}
    (hkeys : ∀ k ∈ keys, '\'' ∉ k.toList) :
    Spells src [] (src.dialect.nestedPath root keys) := by
  cases src with
  | postgresql =>
    have hchain : ∀ ks : List String, (∀ k ∈ ks, '\'' ∉ k.toList) →
        Spells .postgresql [] (String.join (ks.map fun k => s!"->'{k}'")) := by
      intro ks hks
      induction ks with
      | nil => exact .fixed _ "" rfl
      | cons k ks ih =>
        obtain ⟨hk, hrest⟩ := List.forall_mem_cons.1 hks
        have hkey : Spells .postgresql [] ("->" ++ ("'" ++ k ++ "'")) :=
          (Spells.fixed _ "->" rfl).before (.literal k hk)
        rw [List.map_cons, String.join_cons]
        exact (hkey.regroup (by simp [toString])).before (ih hrest)
    have hkey : '\'' ∉ (keys.getLastD "").toList := by
      cases keys using List.reverseRecOn with
      | nil => decide
      | append_singleton ks k => simpa using hkeys k (by simp)
    have hlast : Spells .postgresql [] ("->>" ++ ("'" ++ keys.getLastD "" ++ "'")) :=
      (Spells.fixed _ "->>" rfl).before (.literal _ hkey)
    have hinit := hchain keys.dropLast fun k hk => hkeys k (List.mem_of_mem_dropLast hk)
    exact ((hroot.before hinit).before hlast).regroup (by
      simp [SqlSource.dialect, SqlSource.lowerer, PostgreSQL.lowerer, PostgreSQL.dialect,
        PostgreSQL.nestedPath, toString])
  | mysql =>
    have hpath : Spells .mysql [] ("'" ++ ("$." ++ ".".intercalate keys) ++ "'") :=
      .literal _ (quote_not_mem_path hkeys)
    have hcall := (Spells.fixed .mysql "JSON_UNQUOTE(JSON_EXTRACT(" (by decide)).before
      (hroot.before ((Spells.fixed .mysql ", " rfl).before (hpath.before (.fixed .mysql "))" rfl))))
    exact hcall.regroup (by
      change _ = (MySQL.nestedPath root keys).toList
      unfold MySQL.nestedPath
      generalize "JSON_UNQUOTE(JSON_EXTRACT(" = call
      simp [toString])
  | sqlite =>
    have hpath : Spells .sqlite [] ("'" ++ ("$." ++ ".".intercalate keys) ++ "'") :=
      .literal _ (quote_not_mem_path hkeys)
    have hcall := (Spells.fixed .sqlite "json_extract(" (by decide)).before
      (hroot.before ((Spells.fixed .sqlite ", " rfl).before (hpath.before (.fixed .sqlite ")" rfl))))
    exact hcall.regroup (by
      change _ = (SQLite.nestedPath root keys).toList
      unfold SQLite.nestedPath
      generalize "json_extract(" = call
      simp [toString])

variable {src}

theorem spells_lowerFieldPath {field : BoundFieldPath} (h : src.Readable field) :
    Spells src [] (src.dialect.lowerFieldPath field) := by
  unfold SqlDialect.lowerFieldPath
  split
  · exact spells_nestedPath src (.identifier _ h.root) h.keys
  · rename_i hflat
    have hleaf : field.path.leaf = field.path.root := by
      rw [FieldPath.leaf]
      cases hkeys : field.path.keys with
      | nil => rfl
      | cons k ks => simp [FieldPath.isNested, hkeys] at hflat
    exact .identifier _ (hleaf ▸ h.root)

/-- A column, an operator and what it is compared with. -/
theorem spells_operator {xs : List ℕ} {rest : String} {c : BoundFieldPath} (hc : src.Readable c)
    (operator : String)
    (hfree : ['$', '%', '?', '"', '\'', '\x60'].all (· ∉ operator.toList) = true)
    (hrest : Spells src xs rest) :
    Spells src xs (src.dialect.lowerFieldPath c ++ (operator ++ rest)) :=
  (spells_lowerFieldPath hc).before ((Spells.fixed src operator hfree).before hrest)

/-- Two operands of BETWEEN. -/
theorem spells_bounds (lo hi : SqlOperand) :
    Spells src (indices [lo, hi])
      (src.dialect.operandText lo ++ (" AND " ++ src.dialect.operandText hi)) :=
  indices_append [lo] [hi] ▸
    (spells_operand src lo).between " AND " rfl (by simp) (spells_operand src hi)

/-- A list in parentheses. -/
theorem spells_parenthesized {xs : List ℕ} {s : String} (hs : Spells src xs s) :
    Spells src xs ("(" ++ (s ++ ")")) :=
  (Spells.fixed src "(" rfl).before (hs.behind (.fixed src ")" rfl) (by simp))

/-- The escape character of a pattern. -/
theorem spells_likeEscape : Spells src [] src.dialect.likeEscape := by
  cases src with
  | mysql => exact (Spells.literal "\\\\" (by decide)).regroup (by decide)
  | _ => exact (Spells.literal "\\" (by decide)).regroup (by decide)

/-- A pattern with its escape character. -/
theorem spells_pattern (x : SqlOperand) :
    Spells src (indices [x])
      (src.dialect.operandText x ++ (" ESCAPE " ++ src.dialect.likeEscape)) :=
  (spells_operand src x).behind ((Spells.fixed src " ESCAPE " rfl).before spells_likeEscape) (by simp)

theorem spells_render {c : Condition} (h : ∀ x ∈ c.columns, src.Readable x) :
    Spells src (indices c.operands) (src.dialect.render c) := by
  have hop : ∀ op : ComparisonOperator,
      ['$', '%', '?', '"', '\'', '\x60'].all (· ∉ (" " ++ op.value ++ " ").toList) = true := by
    intro op
    cases op <;> decide
  induction c with
  | constant => exact .fixed src "1=1" rfl
  | blank => exact .fixed src "" rfl
  | isNull c =>
    exact (spells_operator (h c (by simp [Condition.columns])) " IS NULL" rfl
      (.fixed src "" rfl)).regroup (by simp [SqlDialect.render, toString])
  | isNotNull c =>
    exact (spells_operator (h c (by simp [Condition.columns])) " IS NOT NULL" rfl
      (.fixed src "" rfl)).regroup (by simp [SqlDialect.render, toString])
  | compare c op x =>
    exact (spells_operator (h c (by simp [Condition.columns])) _ (hop op)
      (spells_operand src x)).regroup (by simp [SqlDialect.render, toString])
  | between c lo hi =>
    exact (spells_operator (h c (by simp [Condition.columns])) " BETWEEN " rfl
      (spells_bounds lo hi)).regroup (by simp [SqlDialect.render, toString])
  | notBetween c lo hi =>
    exact (spells_operator (h c (by simp [Condition.columns])) " NOT BETWEEN " rfl
      (spells_bounds lo hi)).regroup (by simp [SqlDialect.render, toString])
  | isIn c xs =>
    exact (spells_operator (h c (by simp [Condition.columns])) " IN " rfl
      (spells_parenthesized (spells_listText src xs))).regroup (by
        simp [SqlDialect.render, toString])
  | notIn c xs =>
    exact (spells_operator (h c (by simp [Condition.columns])) " NOT IN " rfl
      (spells_parenthesized (spells_listText src xs))).regroup (by
        simp [SqlDialect.render, toString])
  | like c x =>
    exact (spells_operator (h c (by simp [Condition.columns])) " LIKE " rfl
      (spells_pattern x)).regroup (by simp [SqlDialect.render, toString])
  | notLike c x =>
    exact (spells_operator (h c (by simp [Condition.columns])) " NOT LIKE " rfl
      (spells_pattern x)).regroup (by simp [SqlDialect.render, toString])
  | and l r hl hr =>
    obtain ⟨hleft, hright⟩ := List.forall_mem_append.1 h
    rw [Condition.operands, indices_append]
    exact ((hl hleft).between " AND " rfl (by simp) (hr hright)).regroup (by
      simp [SqlDialect.render, toString])
  | or l r hl hr =>
    obtain ⟨hleft, hright⟩ := List.forall_mem_append.1 h
    rw [Condition.operands, indices_append]
    exact ((hl hleft).between " OR " rfl (by simp) (hr hright)).regroup (by
      simp [SqlDialect.render, toString])
  | not c ih =>
    exact ((Spells.fixed src "NOT " rfl).before (ih h)).regroup (by
      simp [SqlDialect.render, toString])
  | group c ih =>
    exact (spells_parenthesized (ih h)).regroup (by simp [SqlDialect.render, toString])

/-! ### Statements -/

/-- The names in a statement are put together from quoted identifiers. -/
def SqlStatement.NamesSpelled (src : SqlSource) : SqlStatement → Prop
  | insert table columns _ => Spells src [] table ∧ ∀ c ∈ columns, Spells src [] c
  | update table assignments w => Spells src [] table ∧ (∀ a ∈ assignments, Spells src [] a.1) ∧
    ∀ x ∈ w.elim [] Condition.columns, src.Readable x
  | delete table w => Spells src [] table ∧ ∀ x ∈ w.elim [] Condition.columns, src.Readable x
  | select items table w orderBy _ _ => Spells src [] table ∧
    (∀ i ∈ items, Spells src [] i.1 ∧ ∀ a ∈ i.2, Spells src [] a) ∧
    (∀ o ∈ orderBy, Spells src [] o.column ∧ Spells src [] o.nulls) ∧
    ∀ x ∈ w.elim [] Condition.columns, src.Readable x

theorem mem_toString_int {n : ℤ} {c : Char} (h : c ∈ (toString n).toList) :
    c = '-' ∨ c.isDigit = true := by
  rw [Int.toString_eq_repr, Int.repr_eq_if] at h
  split at h
  · exact .inr (isDigit_of_mem_repr h)
  · rw [String.toList_append, List.mem_append] at h
    exact h.imp (fun h => by simpa using h) isDigit_of_mem_repr

theorem spells_int (src : SqlSource) (n : ℤ) : Spells src [] (toString n) := by
  have hplain : ∀ x : Char, x ≠ '-' → x.isDigit = false → x ∉ (toString n).toList :=
    fun x hx hdigit hmem => (mem_toString_int hmem).elim hx fun h => by (rw [hdigit] at h; cases h)
  refine .fixed src _ ?_
  simp only [List.all_cons, List.all_nil, Bool.and_true, Bool.and_eq_true, decide_eq_true_eq]
  refine ⟨?_, ?_, ?_, ?_, ?_, ?_⟩ <;> exact hplain _ (by decide) (by decide)

/-- A text without placeholders that may stand behind one. -/
structure Trails (src : SqlSource) (s : String) : Prop where
  spelled : Spells src [] s
  head : ∀ c ∈ s.toList.head?, c.isDigit = false

namespace Trails

theorem append {s t : String} (hs : Trails src s) (ht : Trails src t) : Trails src (s ++ t) := by
  refine ⟨hs.spelled.before ht.spelled, ?_⟩
  have hhead := hs.head
  rw [String.toList_append]
  cases h : s.toList with
  | nil => exact ht.head
  | cons c l =>
    rw [h] at hhead
    exact hhead

/-- Fixed text and a name behind it. -/
theorem before {s t : String} (hs : Trails src s) (hne : s ≠ "") (ht : Spells src [] t) :
    Trails src (s ++ t) := by
  refine ⟨hs.spelled.before ht, ?_⟩
  have hhead := hs.head
  obtain ⟨c, l, h⟩ := List.exists_cons_of_ne_nil (mt String.toList_eq_nil_iff.1 hne)
  rw [String.toList_append, h]
  rw [h] at hhead
  exact hhead

theorem empty : Trails src "" := ⟨.fixed src "" rfl, by simp⟩

end Trails

/-- What follows the operands of a mutation. -/
theorem trails_returning : Trails src (src.dialect.returning ++ ";") := by
  constructor
  · refine .fixed src _ ?_
    cases src <;> decide
  · cases src <;> decide

section
variable {w : Option Condition} (hw : ∀ x ∈ w.elim [] Condition.columns, src.Readable x)
include hw

theorem spells_whereText :
    Spells src (indices (w.elim [] Condition.operands)) (src.dialect.whereText w) := by
  cases w with
  | none => exact .fixed src "" rfl
  | some c =>
    exact ((Spells.fixed src " WHERE " (by decide)).before (spells_render hw)).regroup (by
      simp [SqlDialect.whereText, toString])

/-- Text that may stand behind a placeholder may stand behind a WHERE clause. -/
theorem spells_whereText_append {t : String} (ht : Trails src t) :
    Spells src (indices (w.elim [] Condition.operands)) (src.dialect.whereText w ++ t) :=
  (spells_whereText hw).behind ht.spelled ht.head

end

theorem head_whereText_append (w : Option Condition) {t : String} (ht : Trails src t) :
    ∀ c ∈ (src.dialect.whereText w ++ t).toList.head?, c.isDigit = false := by
  cases w with
  | none => simpa [SqlDialect.whereText] using ht.head
  | some c => simp [SqlDialect.whereText, toString]

theorem spells_insert {table : String} {columns : List String} (htable : Spells src [] table)
    (hcolumns : ∀ c ∈ columns, Spells src [] c) (rows : List (List SqlOperand)) :
    Spells src (indices rows.flatten)
      (src.dialect.statementText (.insert table columns rows)) := by
  have htuples := Spells.intercalate fun row (_ : row ∈ rows) =>
    spells_parenthesized (spells_listText src row)
  have hindices : rows.flatMap indices = indices rows.flatten := by
    rw [indices, List.filterMap_flatten, List.flatMap_def]
    rfl
  have hnames : Spells src [] (", ".intercalate (columns.map id)) := Spells.names hcolumns
  rw [hindices] at htuples
  have hall := (Spells.fixed src "INSERT INTO " (by decide)).before (htable.before
    ((Spells.fixed src " (" (by decide)).before (hnames.before
      ((Spells.fixed src ") VALUES " (by decide)).before
        (htuples.behind trails_returning.spelled trails_returning.head)))))
  rw [List.map_id] at hall
  unfold SqlDialect.statementText
  dsimp only [toString]
  simpa only [String.append_assoc] using hall

theorem spells_update {table : String} {assignments : List (String × SqlOperand)}
    (htable : Spells src [] table) (hnames : ∀ a ∈ assignments, Spells src [] a.1)
    {w : Option Condition} (hw : ∀ x ∈ w.elim [] Condition.columns, src.Readable x) :
    Spells src (indices (assignments.map (·.2) ++ w.elim [] Condition.operands))
      (src.dialect.statementText (.update table assignments w)) := by
  have hitems := Spells.intercalate fun a (ha : a ∈ assignments) =>
    (hnames a ha).before ((Spells.fixed src " = " (by decide)).before (spells_operand src a.2))
  have hindices : assignments.flatMap (fun a => indices [a.2]) = indices (assignments.map (·.2)) := by
    rw [← flatMap_indices, List.flatMap_map]
  rw [hindices] at hitems
  have hall := (Spells.fixed src "UPDATE " (by decide)).before (htable.before
    ((Spells.fixed src " SET " (by decide)).before
      (hitems.append (spells_whereText_append hw trails_returning)
        (.inr (head_whereText_append w trails_returning)))))
  rw [indices_append]
  unfold SqlDialect.statementText
  dsimp only [toString]
  simpa only [String.append_assoc] using hall

theorem spells_delete {table : String} (htable : Spells src [] table) {w : Option Condition}
    (hw : ∀ x ∈ w.elim [] Condition.columns, src.Readable x) :
    Spells src (indices (w.elim [] Condition.operands))
      (src.dialect.statementText (.delete table w)) := by
  have hall := (Spells.fixed src "DELETE FROM " (by decide)).before
    (htable.before (spells_whereText_append hw trails_returning))
  unfold SqlDialect.statementText
  dsimp only [toString]
  simpa only [String.append_assoc] using hall

theorem trails_order {orderBy : List OrderItem}
    (horder : ∀ o ∈ orderBy, Spells src [] o.column ∧ Spells src [] o.nulls) :
    Trails src (if orderBy.isEmpty then "" else " ORDER BY " ++ ", ".intercalate
      (orderBy.map fun o => s!"{o.column} {o.direction.value}{o.nulls}")) := by
  have hitems : ∀ o ∈ orderBy, Spells src [] s!"{o.column} {o.direction.value}{o.nulls}" := by
    intro o ho
    have hdirection : Spells src [] o.direction.value := by
      cases o.direction <;> exact .fixed src _ (by decide)
    have hitem := (horder o ho).1.before
      ((Spells.fixed src " " (by decide)).before (hdirection.before (horder o ho).2))
    dsimp only [toString]
    simpa only [String.append_assoc] using hitem
  split
  · exact .empty
  · exact Trails.before ⟨.fixed src " ORDER BY " (by decide), by decide⟩ (by decide)
      (Spells.names hitems)

/-- LIMIT and OFFSET. -/
theorem trails_count {word : String} (hword : Trails src word) (hne : word ≠ "") (n : Option ℤ) :
    Trails src (n.elim "" fun n => word ++ toString n) := by
  cases n with
  | none => exact .empty
  | some n => exact hword.before hne (spells_int src n)

theorem spells_select {items : List (String × Option String)} {table : String}
    {orderBy : List OrderItem} (htable : Spells src [] table)
    (hitems : ∀ i ∈ items, Spells src [] i.1 ∧ ∀ a ∈ i.2, Spells src [] a)
    (horder : ∀ o ∈ orderBy, Spells src [] o.column ∧ Spells src [] o.nulls)
    {w : Option Condition} (hw : ∀ x ∈ w.elim [] Condition.columns, src.Readable x)
    (limit offset : Option ℤ) :
    Spells src (indices (w.elim [] Condition.operands))
      (src.dialect.statementText (.select items table w orderBy limit offset)) := by
  have hitem : ∀ i ∈ items, Spells src [] (i.1 ++ i.2.elim "" fun a => s!" AS {a}") := by
    rintro ⟨column, name⟩ hi
    obtain ⟨hcolumn, halias⟩ := hitems _ hi
    refine hcolumn.before ?_
    cases name with
    | none => exact .fixed src "" rfl
    | some a => exact (Spells.fixed src " AS " (by decide)).before (halias a rfl)
  have hselected : Spells src [] (if items.isEmpty then "*" else
      ", ".intercalate (items.map fun i => i.1 ++ i.2.elim "" fun a => s!" AS {a}")) := by
    split
    · exact .fixed src "*" (by decide)
    · exact Spells.names hitem
  have hend := (trails_order horder).append ((trails_count
    ⟨.fixed src " LIMIT " (by decide), by decide⟩ (by decide) limit).append ((trails_count
    ⟨.fixed src " OFFSET " (by decide), by decide⟩ (by decide) offset).append
      ⟨.fixed src ";" (by decide), by decide⟩))
  have hall := (Spells.fixed src "SELECT " (by decide)).before (hselected.before
    ((Spells.fixed src " FROM " (by decide)).before
      (htable.before (spells_whereText_append hw hend))))
  unfold SqlDialect.statementText
  dsimp only [toString] at hall ⊢
  simpa only [String.append_assoc] using hall

theorem spells_statementText {statement : SqlStatement} (h : statement.NamesSpelled src) :
    Spells src (indices statement.operands) (src.dialect.statementText statement) := by
  cases statement with
  | insert table columns rows => exact spells_insert h.1 h.2 rows
  | update table assignments w => exact spells_update h.1 h.2.1 h.2.2
  | delete table w => exact spells_delete h.1 h.2
  | select items table w orderBy limit offset =>
    exact spells_select h.1 h.2.1 h.2.2.1 h.2.2.2 limit offset

end

end AltrStream.Lowering
