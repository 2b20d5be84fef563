import AltrStream.Lowering.Alignment
import AltrStream.Lowering.Fragments

/-! # Names in the statements of a query

The fragments of the statements that a query is lowered to, with the names of the query in
them. The text of a statement is that of its fragments, so the database reads the names
back if and only if each of them can stand where it is written.
-/
namespace AltrStream.Lowering
open Foundations Python QueryEngine Semantics

namespace Fragment

def code (s : String) : List Fragment := s.toList.map plain

def commaSep (l : List (List Fragment)) : List Fragment := (code ", ").intercalate l

end Fragment

open Fragment (code commaSep)

/-! ### References -/

/-- What a statement refers to by name. -/
inductive Reference where
  | table (entity : BoundEntity)
  /-- A column, or a JSON value in it. -/
  | column (field : BoundFieldPath)
  /-- A column or an alias by its name alone. -/
  | name (name : String)

namespace SqlSource
variable (src : SqlSource)

/-- The namespace of a table is written. -/
def QualifiesTable (entity : BoundEntity) : Prop :=
  match src with
  | postgresql => entity.namespace_ ≠ ""
  | mysql => ¬(entity.namespace_ = "" ∨ entity.namespace_.toList.map Char.toLower = "default".toList)
  | sqlite => False

instance (entity : BoundEntity) : Decidable (src.QualifiesTable entity) :=
  match src with
  | postgresql => inferInstanceAs (Decidable (_ ≠ _))
  | mysql => inferInstanceAs (Decidable (¬_))
  | sqlite => inferInstanceAs (Decidable False)

def tableFragments (entity : BoundEntity) : List Fragment :=
  if src.QualifiesTable entity then
    .identifier entity.namespace_ :: (code "." ++ [.identifier entity.name])
  else [.identifier entity.name]

/-- The reference to a JSON value. -/
def nestedFragments (root : String) (keys : List String) : List Fragment :=
  match src with
  | postgresql => .identifier root :: (keys.dropLast.flatMap (fun k => code "->" ++ [.string k]) ++
      (code "->>" ++ [.string (keys.getLastD "")]))
  | mysql =>
    code "JSON_UNQUOTE(JSON_EXTRACT(" ++ .identifier root :: (code ", " ++ .path keys :: code "))")
  | sqlite => code "json_extract(" ++ .identifier root :: (code ", " ++ .path keys :: code ")")

def columnFragments (field : BoundFieldPath) : List Fragment :=
  if field.path.isNested then src.nestedFragments field.path.root field.path.keys
  else [.identifier field.path.leaf]

end SqlSource

namespace Reference

def text (src : SqlSource) : Reference → String
  | table entity => src.lowerer.targetTable entity
  | column field => src.dialect.lowerFieldPath field
  | name n => src.dialect.quoteIdent n

def fragments (src : SqlSource) : Reference → List Fragment
  | table entity => src.tableFragments entity
  | column field => src.columnFragments field
  | name n => [.identifier n]

/-- The names can stand in quotes, and the keys in a literal. -/
def Safe (paths : JsonPaths) (src : SqlSource) : Reference → Prop
  | table entity => src.Quotable entity.namespace_ ∧ src.Quotable entity.name
  | column field => src.Quotable field.path.root ∧ ∀ k ∈ field.path.keys, paths.Takes src k.toList
  | name n => src.Quotable n

end Reference

/-- Everything that the statements of a query refer to by name. -/
def references (q : BoundAltrQueryIR) : List Reference :=
  .table q.entity :: (pathColumns q).map .column ++ List.map .name
    (match q.operation with
    | .create => (recordsToCreate q).flatMap columnTuple
    | .update => q.assignments.map (·.field.path.leaf)
    | .delete => []
    | .read => q.projection.filterMap (·.alias_) ++
      if q.ranking.isNone && q.sort.isEmpty then q.entity.primaryKey else [])

/-! ### Statements -/

namespace SqlSource
variable (src : SqlSource)

/-- An operand; SQLite's current day and time have a literal in them. -/
def operandFragments : SqlOperand → List Fragment
  | .param i => code (src.dialect.placeholder i)
  | .null => code "NULL"
  | .current k =>
    match src, k with
    | sqlite, .today => code "DATE(" ++ .string "now" :: code ")"
    | sqlite, .now => code "DATETIME(" ++ .string "now" :: code ")"
    | _, k => code (src.dialect.current k)

def listFragments (xs : List SqlOperand) : List Fragment := commaSep (xs.map src.operandFragments)

def conditionFragments : Condition → List Fragment
  | .constant => code "1=1"
  | .blank => []
  | .isNull c => src.columnFragments c ++ code " IS NULL"
  | .isNotNull c => src.columnFragments c ++ code " IS NOT NULL"
  | .compare c op x =>
    src.columnFragments c ++ (code s!" {op.value} " ++ src.operandFragments x)
  | .between c lo hi => src.columnFragments c ++
      (code " BETWEEN " ++ (src.operandFragments lo ++ (code " AND " ++ src.operandFragments hi)))
  | .notBetween c lo hi => src.columnFragments c ++
      (code " NOT BETWEEN " ++ (src.operandFragments lo ++ (code " AND " ++ src.operandFragments hi)))
  | .isIn c xs => src.columnFragments c ++ (code " IN (" ++ (src.listFragments xs ++ code ")"))
  | .notIn c xs => src.columnFragments c ++ (code " NOT IN (" ++ (src.listFragments xs ++ code ")"))
  | .like c p => src.columnFragments c ++
      (code " LIKE " ++ (src.operandFragments p ++ (code " ESCAPE " ++ [.escape])))
  | .notLike c p => src.columnFragments c ++
      (code " NOT LIKE " ++ (src.operandFragments p ++ (code " ESCAPE " ++ [.escape])))
  | .and l r => conditionFragments l ++ (code " AND " ++ conditionFragments r)
  | .or l r => conditionFragments l ++ (code " OR " ++ conditionFragments r)
  | .not e => code "NOT " ++ conditionFragments e
  | .group e => code "(" ++ (conditionFragments e ++ code ")")

def whereFragments (w : Option Condition) : List Fragment :=
  w.elim [] fun c => code " WHERE " ++ src.conditionFragments c

/-- What follows a mutation. -/
def endFragments : List Fragment := code (src.dialect.returning ++ ";")

def itemFragments (sel : BoundFieldSelection) : List Fragment :=
  src.columnFragments sel.field ++
    (sel.alias_.filter fun a => a ≠ "").elim [] fun a => code " AS " ++ [.identifier a]

/-- An entry of ORDER BY. -/
def orderEntry (column : List Fragment) (direction : SortDirection) (nulls : String) :
    List Fragment := column ++ code (" " ++ direction.value ++ nulls)

def orderFragments (q : BoundAltrQueryIR) : List (List Fragment) :=
  let ranked := q.ranking.toList.map fun r =>
    orderEntry (src.columnFragments r.field) (if r.direction = .top then .desc else .asc) ""
  let sorted := q.sort.map fun s =>
    orderEntry (src.columnFragments s.field) s.direction (src.lowerer.nullOrder s.direction)
  let byKey := q.entity.primaryKey.map fun pk => orderEntry [.identifier pk] .asc ""
  ranked ++ sorted ++ if q.ranking.isNone && q.sort.isEmpty then byKey else []

/-- The fragments of a statement, with the names of the query and with the operands, the condition
and the window of the statement. -/
def template (q : BoundAltrQueryIR) (columns : List String) : SqlStatement → List Fragment
  | .insert _ _ rows => code "INSERT INTO " ++ (src.tableFragments q.entity ++ (code " (" ++
      (commaSep (columns.map fun c => [.identifier c]) ++ (code ") VALUES " ++
        (commaSep (rows.map fun row => code "(" ++ (src.listFragments row ++ code ")")) ++
          src.endFragments)))))
  | .update _ assignments w => code "UPDATE " ++ (src.tableFragments q.entity ++ (code " SET " ++
      (commaSep ((columns.zip assignments).map fun pair =>
        .identifier pair.1 :: (code " = " ++ src.operandFragments pair.2.2)) ++
          (src.whereFragments w ++ src.endFragments))))
  | .delete _ w => code "DELETE FROM " ++
      (src.tableFragments q.entity ++ (src.whereFragments w ++ src.endFragments))
  | .select _ _ w _ limit offset => code "SELECT " ++
      ((if q.projection = [] then code "*" else commaSep (q.projection.map src.itemFragments)) ++
        (code " FROM " ++ (src.tableFragments q.entity ++ (src.whereFragments w ++
          ((if src.orderFragments q = [] then [] else
            code " ORDER BY " ++ commaSep (src.orderFragments q)) ++
          (limit.elim [] (fun n => code s!" LIMIT {n}") ++
            (offset.elim [] (fun n => code s!" OFFSET {n}") ++ code ";")))))))

/-- The templates of the statements that a query is lowered to. -/
def templates (q : BoundAltrQueryIR) : List (SqlStatement → List Fragment) :=
  match q.operation with
  | .create => (groupRecords (recordsToCreate q)).map fun group =>
    src.template q (group.head?.elim [] columnTuple)
  | .update => [src.template q (q.assignments.map (·.field.path.leaf))]
  | _ => [src.template q []]

end SqlSource

/-! ### The text of fragments -/

namespace Fragment
variable {src : SqlSource} {fs gs : List Fragment} {s t : String}

/-- The text is that of the fragments. -/
structure Written (src : SqlSource) (fs : List Fragment) (s : String) : Prop where
  text : s.toList = fs.flatMap (Fragment.text src)
  apart : fs.IsChain Apart
  fits : ∀ f ∈ fs, f.Fits src

namespace Written

theorem append (hs : Written src fs s) (ht : Written src gs t)
    (h : (∀ f ∈ fs.getLast?, f.isPlain = true) ∨ ∀ g ∈ gs.head?, g.isPlain = true) :
    Written src (fs ++ gs) (s ++ t) where
  text := by rw [String.toList_append, List.flatMap_append, hs.text, ht.text]
  apart := hs.apart.append ht.apart fun f hf g hg =>
    h.imp (fun hplain => hplain f hf) fun hplain => hplain g hg
  fits := List.forall_mem_append.2 ⟨hs.fits, ht.fits⟩

theorem empty : Written src [] "" := ⟨rfl, .nil, fun _ hf => absurd hf List.not_mem_nil⟩

theorem isPlain_of_mem_code {f : Fragment} (h : f ∈ code s) : f.isPlain = true := by
  obtain ⟨c, -, rfl⟩ := List.mem_map.1 h
  rfl

/-- Text without quotes. -/
theorem code (h : ∀ c ∈ s.toList, c ∉ quotes) : Written src (Fragment.code s) s where
  text := by
    rw [Fragment.code, List.flatMap_map]
    exact (List.flatMap_singleton' _).symm
  apart := by
    refine List.Pairwise.isChain ?_
    exact List.pairwise_of_forall_mem_list fun f hf _ _ => .inl (isPlain_of_mem_code hf)
  fits := by
    intro f hf
    obtain ⟨c, hc, rfl⟩ := List.mem_map.1 hf
    exact h c hc

theorem single {f : Fragment} (hf : f.Fits src) (hs : s.toList = f.text src) : Written src [f] s where
  text := by rw [hs, List.flatMap_singleton]
  apart := .singleton f
  fits := List.forall_mem_singleton.2 hf

theorem identifier (name : String) :
    Written src [.identifier name] (src.dialect.quoteIdent name) := single trivial rfl

theorem escape : Written src [.escape] src.dialect.likeEscape := single trivial rfl

theorem regroup (hs : Written src fs s) (h : s.toList = t.toList) : Written src fs t :=
  String.toList_inj.1 h ▸ hs

/-- Text without quotes in front. -/
theorem before (h : ∀ c ∈ s.toList, c ∉ quotes) (ht : Written src gs t) :
    Written src (Fragment.code s ++ gs) (s ++ t) :=
  (code h).append ht (.inl fun _ hf => isPlain_of_mem_code (List.mem_of_getLast? hf))

theorem isPlain_head_code (hs : s ≠ "") (gs : List Fragment) :
    ∀ g ∈ (Fragment.code s ++ gs).head?, g.isPlain = true := by
  obtain ⟨c, text, htext⟩ := List.exists_cons_of_ne_nil (mt String.toList_eq_nil_iff.1 hs)
  intro g hg
  rw [Fragment.code, htext] at hg
  cases hg
  rfl

/-- Text without quotes between two texts. -/
theorem between (hs : Written src fs s) (sep : String) (hne : sep ≠ "")
    (hsep : ∀ c ∈ sep.toList, c ∉ quotes) (ht : Written src gs t) :
    Written src (fs ++ (Fragment.code sep ++ gs)) (s ++ (sep ++ t)) :=
  hs.append (before hsep ht) (.inr (isPlain_head_code hne gs))

/-- Text without quotes behind. -/
theorem behind (hs : Written src fs s) (sep : String) (hne : sep ≠ "")
    (hsep : ∀ c ∈ sep.toList, c ∉ quotes) : Written src (fs ++ Fragment.code sep) (s ++ sep) := by
  have hall := hs.between sep hne hsep empty
  rwa [List.append_nil, String.append_empty] at hall

/-- Texts that are joined with commas. -/
theorem commaSep {l : List (List Fragment)} {texts : List String}
    (h : List.Forall₂ (Written src) l texts) :
    Written src (Fragment.commaSep l) (", ".intercalate texts) := by
  induction h with
  | nil => exact empty
  | @cons fs s l texts hs h ih =>
    cases h with
    | nil => simpa [Fragment.commaSep] using hs
    | @cons gs t l texts ht h =>
      have hall := hs.between ", " (by decide) (by decide) ih
      rw [String.intercalate_cons_cons, String.append_assoc, Fragment.commaSep,
        List.intercalate_cons_cons, List.append_assoc]
      exact hall

theorem commaSep_map {α : Type} {fragments : α → List Fragment} {text : α → String} {l : List α}
    (h : ∀ a ∈ l, Written src (fragments a) (text a)) :
    Written src (Fragment.commaSep (l.map fragments)) (", ".intercalate (l.map text)) := by
  refine commaSep ?_
  rw [List.forall₂_map_left_iff, List.forall₂_map_right_iff, List.forall₂_same]
  exact h

end Written

/-- The text is that of the fragments, and does not start with a quote. -/
structure Trailing (src : SqlSource) (fs : List Fragment) (s : String) : Prop
    extends Written src fs s where
  head : ∀ f ∈ fs.head?, f.isPlain = true

namespace Trailing

theorem of_before (sep : String) (hne : sep ≠ "") (hsep : ∀ c ∈ sep.toList, c ∉ quotes)
    (ht : Written src gs t) : Trailing src (Fragment.code sep ++ gs) (sep ++ t) :=
  ⟨.before hsep ht, Written.isPlain_head_code hne gs⟩

theorem code (hs : s ≠ "") (hfree : ∀ c ∈ s.toList, c ∉ quotes) :
    Trailing src (Fragment.code s) s := by
  have hall := of_before s hs hfree (@Written.empty src)
  rwa [List.append_nil, String.append_empty] at hall

theorem append (hs : Trailing src fs s) (ht : Trailing src gs t) : Trailing src (fs ++ gs) (s ++ t) where
  toWritten := hs.toWritten.append ht.toWritten (.inr ht.head)
  head := by
    cases fs with
    | nil => exact ht.head
    | cons f fs => exact hs.head

theorem empty : Trailing src [] "" := ⟨.empty, fun _ hf => absurd hf (by simp)⟩

end Trailing

end Fragment

/-! ### The text of a statement -/

section
open Fragment (Written Trailing)
variable (src : SqlSource)

theorem digit_not_mem_quotes {c : Char} (h : c.isDigit = true) : c ∉ quotes := by
  intro hc
  simp only [quotes, List.mem_cons, List.not_mem_nil, or_false] at hc
  rcases hc with rfl | rfl | rfl <;> exact absurd h (by decide)

theorem int_not_mem_quotes (n : ℤ) : ∀ c ∈ (toString n).toList, c ∉ quotes := by
  intro c hc
  rcases mem_toString_int hc with rfl | hdigit
  · decide
  · exact digit_not_mem_quotes hdigit

theorem placeholder_not_mem_quotes (i : ℕ) :
    ∀ c ∈ (src.dialect.placeholder i).toList, c ∉ quotes := by
  cases src with
  | postgresql =>
    intro c hc
    have htext : (SqlSource.postgresql.dialect.placeholder i).toList = '$' :: i.repr.toList := by
      simp [SqlSource.dialect, SqlSource.lowerer, PostgreSQL.lowerer, PostgreSQL.dialect, toString]
    rw [htext, List.mem_cons] at hc
    rcases hc with rfl | hc
    · decide
    · exact digit_not_mem_quotes (isDigit_of_mem_repr hc)
  | mysql => exact (by decide : ∀ c ∈ "%s".toList, c ∉ quotes)
  | sqlite => exact (by decide : ∀ c ∈ "?".toList, c ∉ quotes)

theorem written_operand (x : SqlOperand) :
    Written src (src.operandFragments x) (src.dialect.operandText x) := by
  have hnow : (Fragment.string "now").Fits .sqlite := by rintro ⟨⟩
  have hcall : ∀ call : String, (∀ c ∈ call.toList, c ∉ quotes) →
      Written .sqlite (code call ++ .string "now" :: code ")") (call ++ ("'now'" ++ ")")) :=
    fun call hfree => .before hfree ((Written.single hnow (by decide)).behind ")" (by decide)
      (by decide))
  cases x with
  | param i => exact .code (placeholder_not_mem_quotes src i)
  | null => exact .code (by decide)
  | current k =>
    cases src with
    | sqlite =>
      cases k with
      | today => exact (hcall "DATE(" (by decide)).regroup (by decide)
      | now => exact (hcall "DATETIME(" (by decide)).regroup (by decide)
    | _ => cases k <;> exact .code (by decide)

theorem written_list (xs : List SqlOperand) :
    Written src (src.listFragments xs) (src.dialect.listText xs) :=
  .commaSep_map fun x _ => written_operand src x

theorem written_table (entity : BoundEntity) :
    Written src (src.tableFragments entity) (src.lowerer.targetTable entity) := by
  have hboth : Written src (.identifier entity.namespace_ :: (code "." ++ [.identifier entity.name]))
      (src.dialect.quoteIdent entity.namespace_ ++ ("." ++ src.dialect.quoteIdent entity.name)) :=
    (Written.identifier _).between "." (by decide) (by decide) (.identifier _)
  have hname := @Written.identifier src entity.name
  unfold SqlSource.tableFragments
  cases src with
  | sqlite => exact hname
  | mysql =>
    change Written _ _ (MySQL.targetTable entity)
    unfold MySQL.targetTable
    by_cases hnone : entity.namespace_ = "" ∨
        entity.namespace_.toList.map Char.toLower = "default".toList
    · have hplain : ¬SqlSource.mysql.QualifiesTable entity := not_not.2 hnone
      rw [if_pos hnone, if_neg hplain]
      exact hname
    · have hqualified : SqlSource.mysql.QualifiesTable entity := hnone
      rw [if_neg hnone, if_pos hqualified]
      exact hboth.regroup (by
        simp [SqlSource.dialect, SqlSource.lowerer, MySQL.lowerer, MySQL.dialect, toString])
  | postgresql =>
    change Written _ _ (PostgreSQL.targetTable entity)
    unfold PostgreSQL.targetTable
    by_cases hnone : entity.namespace_ = ""
    · have hplain : ¬SqlSource.postgresql.QualifiesTable entity := not_not.2 hnone
      rw [if_pos hnone, if_neg hplain]
      exact hname
    · have hqualified : SqlSource.postgresql.QualifiesTable entity := hnone
      rw [if_neg hnone, if_pos hqualified]
      exact hboth.regroup (by
        simp [SqlSource.dialect, SqlSource.lowerer, PostgreSQL.lowerer, PostgreSQL.dialect, toString])

theorem toList_join_keys (keys : List String) (h : keys ≠ []) :
    ("$." ++ ".".intercalate keys).toList = '$' :: Fragment.legs keys := by
  have hjoin : ∀ k keys, (".".intercalate (k :: keys)).toList = k.toList ++ Fragment.legs keys := by
    intro k keys
    induction keys generalizing k with
    | nil => simp [Fragment.legs]
    | cons k' keys ih =>
      rw [String.intercalate_cons_cons, String.toList_append, ih, String.toList_append,
        List.append_assoc]
      rfl
  cases keys with
  | nil => exact absurd rfl h
  | cons k keys =>
    rw [String.toList_append, hjoin]
    rfl

theorem written_nestedPath (root : String) {keys : List String} (hkeys : keys ≠ []) :
    Written src (src.nestedFragments root keys)
      (src.dialect.nestedPath (src.dialect.quoteIdent root) keys) := by
  have hroot := @Written.identifier src root
  cases src with
  | postgresql =>
    have hfits : ∀ k, (Fragment.string k).Fits .postgresql := fun k => by rintro ⟨⟩
    have hkey : ∀ k, Written .postgresql [.string k] ("'" ++ (k ++ "'")) := fun k =>
      .single (hfits k) (by simp [Fragment.text])
    have hchain : ∀ ks : List String, Trailing .postgresql
        (ks.flatMap fun k => code "->" ++ [.string k])
        (String.join (ks.map fun k => "->'" ++ k ++ "'")) := by
      intro ks
      induction ks with
      | nil => exact .empty
      | cons k ks ih =>
        have hstep := Trailing.of_before "->" (by decide) (by decide) (hkey k)
        have htext : "->" ++ ("'" ++ (k ++ "'")) = "->'" ++ k ++ "'" :=
          String.toList_inj.1 (by simp)
        rw [List.flatMap_cons, List.map_cons, String.join_cons, ← htext]
        exact hstep.append ih
    have htail := (hchain keys.dropLast).append
      (Trailing.of_before "->>" (by decide) (by decide) (hkey (keys.getLastD "")))
    exact (hroot.append htail.toWritten (.inr htail.head)).regroup (by
      simp [SqlSource.dialect, SqlSource.lowerer, PostgreSQL.lowerer, PostgreSQL.dialect,
        PostgreSQL.nestedPath, toString])
  | mysql =>
    have hfits : (Fragment.path keys).Fits .mysql := by rintro ⟨⟩
    have hpath : Written .mysql [.path keys] ("'" ++ ("$." ++ ".".intercalate keys) ++ "'") :=
      .single hfits (by
        rw [String.toList_append, String.toList_append, toList_join_keys keys hkeys]
        rfl)
    have hcall := Written.before (s := "JSON_UNQUOTE(JSON_EXTRACT(") (by decide)
      (hroot.between ", " (by decide) (by decide) (hpath.behind "))" (by decide) (by decide)))
    exact hcall.regroup (by
      change _ = (MySQL.nestedPath _ keys).toList
      unfold MySQL.nestedPath
      generalize "JSON_UNQUOTE(JSON_EXTRACT(" = call
      simp [toString])
  | sqlite =>
    have hfits : (Fragment.path keys).Fits .sqlite := by rintro ⟨⟩
    have hpath : Written .sqlite [.path keys] ("'" ++ ("$." ++ ".".intercalate keys) ++ "'") :=
      .single hfits (by
        rw [String.toList_append, String.toList_append, toList_join_keys keys hkeys]
        rfl)
    have hcall := Written.before (s := "json_extract(") (by decide)
      (hroot.between ", " (by decide) (by decide) (hpath.behind ")" (by decide) (by decide)))
    exact hcall.regroup (by
      change _ = (SQLite.nestedPath _ keys).toList
      unfold SQLite.nestedPath
      generalize "json_extract(" = call
      simp [toString])

theorem written_column (field : BoundFieldPath) :
    Written src (src.columnFragments field) (src.dialect.lowerFieldPath field) := by
  unfold SqlDialect.lowerFieldPath SqlSource.columnFragments
  split
  · next hnested =>
    refine written_nestedPath src _ fun hnil => ?_
    rw [FieldPath.isNested, hnil] at hnested
    cases hnested
  · exact .identifier _

theorem written_condition (c : Condition) :
    Written src (src.conditionFragments c) (src.dialect.render c) := by
  have hcolumn := written_column src
  have hoperand := written_operand src
  have hpattern : ∀ x, Written src (src.operandFragments x ++ (code " ESCAPE " ++ [.escape]))
      (src.dialect.operandText x ++ (" ESCAPE " ++ src.dialect.likeEscape)) := fun x =>
    (hoperand x).between _ (by decide) (by decide) .escape
  have hbounds : ∀ lo hi,
      Written src (src.operandFragments lo ++ (code " AND " ++ src.operandFragments hi))
        (src.dialect.operandText lo ++ (" AND " ++ src.dialect.operandText hi)) := fun lo hi =>
    (hoperand lo).between _ (by decide) (by decide) (hoperand hi)
  have hlist : ∀ xs, Written src (src.listFragments xs ++ code ")") (src.dialect.listText xs ++ ")") :=
    fun xs => (written_list src xs).behind _ (by decide) (by decide)
  induction c with
  | constant => exact .code (by decide)
  | blank => exact .empty
  | isNull c =>
    exact ((hcolumn c).behind " IS NULL" (by decide) (by decide)).regroup
      (by simp [SqlDialect.render, toString])
  | isNotNull c =>
    exact ((hcolumn c).behind " IS NOT NULL" (by decide) (by decide)).regroup
      (by simp [SqlDialect.render, toString])
  | compare c op x =>
    have hop : s!" {op.value} " ≠ "" ∧ ∀ ch ∈ (s!" {op.value} ").toList, ch ∉ quotes := by
      cases op <;> decide
    exact ((hcolumn c).between _ hop.1 hop.2 (hoperand x)).regroup
      (by simp [SqlDialect.render, toString])
  | between c lo hi =>
    exact ((hcolumn c).between " BETWEEN " (by decide) (by decide) (hbounds lo hi)).regroup
      (by simp [SqlDialect.render, toString])
  | notBetween c lo hi =>
    exact ((hcolumn c).between " NOT BETWEEN " (by decide) (by decide) (hbounds lo hi)).regroup
      (by simp [SqlDialect.render, toString])
  | isIn c xs =>
    exact ((hcolumn c).between " IN (" (by decide) (by decide) (hlist xs)).regroup
      (by simp [SqlDialect.render, toString])
  | notIn c xs =>
    exact ((hcolumn c).between " NOT IN (" (by decide) (by decide) (hlist xs)).regroup
      (by simp [SqlDialect.render, toString])
  | like c p =>
    exact ((hcolumn c).between " LIKE " (by decide) (by decide) (hpattern p)).regroup
      (by simp [SqlDialect.render, toString])
  | notLike c p =>
    exact ((hcolumn c).between " NOT LIKE " (by decide) (by decide) (hpattern p)).regroup
      (by simp [SqlDialect.render, toString])
  | and l r hl hr =>
    exact (hl.between " AND " (by decide) (by decide) hr).regroup
      (by simp [SqlDialect.render, toString])
  | or l r hl hr =>
    exact (hl.between " OR " (by decide) (by decide) hr).regroup
      (by simp [SqlDialect.render, toString])
  | not e ih =>
    exact (Written.before (s := "NOT ") (by decide) ih).regroup
      (by simp [SqlDialect.render, toString])
  | group e ih =>
    exact (Written.before (s := "(") (by decide) (ih.behind ")" (by decide) (by decide))).regroup
      (by simp [SqlDialect.render, toString])

theorem trailing_where (w : Option Condition) :
    Trailing src (src.whereFragments w) (src.dialect.whereText w) := by
  cases w with
  | none => exact .empty
  | some c =>
    have hwhere := Trailing.of_before " WHERE " (by decide) (by decide) (written_condition src c)
    have htext : " WHERE " ++ src.dialect.render c = src.dialect.whereText (some c) :=
      String.toList_inj.1 (by simp [SqlDialect.whereText, toString])
    exact htext ▸ hwhere

theorem trailing_end : Trailing src src.endFragments (src.dialect.returning ++ ";") := by
  have hfree : src.dialect.returning ++ ";" ≠ "" ∧
      ∀ c ∈ (src.dialect.returning ++ ";").toList, c ∉ quotes := by
    cases src <;> decide
  exact .code hfree.1 hfree.2

theorem written_insert (q : BoundAltrQueryIR) (columns : List String) (rows : List (List SqlOperand)) :
    Written src (src.template q columns (.insert (src.lowerer.targetTable q.entity)
      (columns.map src.dialect.quoteIdent) rows))
      (src.dialect.statementText (.insert (src.lowerer.targetTable q.entity)
        (columns.map src.dialect.quoteIdent) rows)) := by
  have htuple : ∀ row : List SqlOperand, Written src
      (code "(" ++ (src.listFragments row ++ code ")")) ("(" ++ (src.dialect.listText row ++ ")")) :=
    fun row => Written.before (s := "(") (by decide)
      ((written_list src row).behind ")" (by decide) (by decide))
  have hrows := (Written.commaSep_map fun row (_ : row ∈ rows) => htuple row).append
    (trailing_end src).toWritten (.inr (trailing_end src).head)
  have hnames := Written.commaSep_map fun c (_ : c ∈ columns) => @Written.identifier src c
  have hall := Written.before (s := "INSERT INTO ") (by decide) ((written_table src q.entity).between
    " (" (by decide) (by decide) (hnames.between ") VALUES " (by decide) (by decide) hrows))
  unfold SqlDialect.statementText
  dsimp only [toString]
  simp only [String.append_assoc]
  exact hall

/-- A mutation or a READ goes on with a WHERE clause that may be missing. -/
theorem written_tail {fs gs : List Fragment} {s t : String} (hs : Written src fs s)
    (w : Option Condition) (ht : Trailing src gs t) :
    Written src (fs ++ (src.whereFragments w ++ gs)) (s ++ (src.dialect.whereText w ++ t)) :=
  have hwhere := (trailing_where src w).append ht
  hs.append hwhere.toWritten (.inr hwhere.head)

theorem written_update (q : BoundAltrQueryIR) {columns : List String}
    {assignments : List (String × SqlOperand)}
    (h : assignments.map (·.1) = columns.map src.dialect.quoteIdent) (w : Option Condition) :
    Written src (src.template q columns (.update (src.lowerer.targetTable q.entity) assignments w))
      (src.dialect.statementText (.update (src.lowerer.targetTable q.entity) assignments w)) := by
  have hitem : ∀ pair : String × (String × SqlOperand), Written src
      (.identifier pair.1 :: (code " = " ++ src.operandFragments pair.2.2))
      (src.dialect.quoteIdent pair.1 ++ (" = " ++ src.dialect.operandText pair.2.2)) := fun pair =>
    (Written.identifier pair.1).between " = " (by decide) (by decide) (written_operand src _)
  have hitems := Written.commaSep_map fun pair (_ : pair ∈ columns.zip assignments) => hitem pair
  have htexts : (columns.zip assignments).map (fun pair =>
      src.dialect.quoteIdent pair.1 ++ (" = " ++ src.dialect.operandText pair.2.2)) =
      assignments.map fun a => a.1 ++ (" = " ++ src.dialect.operandText a.2) := by
    clear hitems
    induction columns generalizing assignments with
    | nil => rw [List.map_eq_nil_iff.1 h]; rfl
    | cons c columns ih =>
      obtain ⟨a, rest, rfl, ha, hrest⟩ := List.map_eq_cons_iff.1 h
      rw [List.zip_cons_cons, List.map_cons, List.map_cons, ih hrest, ha]
  rw [htexts] at hitems
  have hall := Written.before (s := "UPDATE ") (by decide) ((written_table src q.entity).between
    " SET " (by decide) (by decide) (written_tail src hitems w (trailing_end src)))
  unfold SqlDialect.statementText
  dsimp only [toString]
  simp only [String.append_assoc]
  exact hall

theorem written_delete (q : BoundAltrQueryIR) (w : Option Condition) :
    Written src (src.template q [] (.delete (src.lowerer.targetTable q.entity) w))
      (src.dialect.statementText (.delete (src.lowerer.targetTable q.entity) w)) := by
  have hall := Written.before (s := "DELETE FROM ") (by decide)
    (written_tail src (written_table src q.entity) w (trailing_end src))
  unfold SqlDialect.statementText
  dsimp only [toString]
  simp only [String.append_assoc]
  exact hall

theorem written_items (projection : List BoundFieldSelection) :
    Written src (if projection = [] then code "*" else commaSep (projection.map src.itemFragments))
      (if (projection.map src.lowerer.selectItem).isEmpty then "*"
        else ", ".intercalate ((projection.map src.lowerer.selectItem).map
          fun i => i.1 ++ i.2.elim "" fun a => s!" AS {a}")) := by
  have hitem : ∀ sel : BoundFieldSelection, Written src (src.itemFragments sel)
      ((src.lowerer.selectItem sel).1 ++ (src.lowerer.selectItem sel).2.elim "" fun a => s!" AS {a}") := by
    intro sel
    have hcolumn := written_column src sel.field
    unfold SqlSource.itemFragments SqlLowerer.selectItem
    cases halias : sel.alias_.filter fun a => a ≠ "" with
    | none => exact hcolumn.append .empty (.inr (by simp))
    | some a =>
      have hname := hcolumn.between " AS " (by decide) (by decide) (.identifier a)
      refine hname.regroup ?_
      simp [toString]
      rfl
  cases projection with
  | nil => exact .code (by decide)
  | cons sel projection =>
    rw [if_neg (List.cons_ne_nil _ _), List.map_map]
    exact .commaSep_map fun i _ => hitem i

def OrderItem.text (item : OrderItem) : String :=
  s!"{item.column} {item.direction.value}{item.nulls}"

theorem written_orderEntry {column : List Fragment} (item : OrderItem)
    (hcolumn : Written src column item.column) (hnulls : ∀ c ∈ item.nulls.toList, c ∉ quotes) :
    Written src (SqlSource.orderEntry column item.direction item.nulls) item.text := by
  obtain ⟨text, direction, nulls⟩ := item
  have hdirection : ∀ c ∈ (" " ++ direction.value).toList, c ∉ quotes := by
    cases direction <;> decide
  have hfree : ∀ c ∈ (" " ++ direction.value ++ nulls).toList, c ∉ quotes := by
    rw [String.toList_append]
    exact List.forall_mem_append.2 ⟨hdirection, hnulls⟩
  have hne : " " ++ direction.value ++ nulls ≠ "" := by
    simp [String.append_eq_empty_iff]
  exact (hcolumn.behind _ hne hfree).regroup (by simp [OrderItem.text, toString])

/-- The entries of ORDER BY one by one. -/
theorem written_orderItems (q : BoundAltrQueryIR) :
    List.Forall₂ (Written src) (src.orderFragments q)
      ((src.lowerer.orderItems q).map OrderItem.text) := by
  have hnulls : ∀ d : SortDirection, ∀ c ∈ (src.lowerer.nullOrder d).toList, c ∉ quotes := by
    rintro (_ | _) <;> cases src <;> decide
  have hempty : ∀ c ∈ "".toList, c ∉ quotes := by decide
  have hmap : ∀ {α : Type} {l : List α} (column : α → List Fragment) (item : α → OrderItem),
      (∀ a ∈ l, Written src (SqlSource.orderEntry (column a) (item a).direction (item a).nulls)
        (item a).text) →
      List.Forall₂ (Written src)
        (l.map fun a => SqlSource.orderEntry (column a) (item a).direction (item a).nulls)
        ((l.map item).map OrderItem.text) := by
    intro α l column item h
    rw [List.map_map, List.forall₂_map_left_iff, List.forall₂_map_right_iff, List.forall₂_same]
    exact h
  unfold SqlSource.orderFragments SqlLowerer.orderItems
  rw [List.map_append, List.map_append]
  refine List.rel_append (List.rel_append ?ranked ?sorted) ?byKey
  case ranked =>
    exact hmap (fun r : BoundRankingClause => src.columnFragments r.field)
      (fun r => ⟨src.dialect.lowerFieldPath r.field, if r.direction = .top then .desc else .asc, ""⟩)
      fun r _ => written_orderEntry src _ (written_column src r.field) hempty
  case sorted =>
    exact hmap (fun s : BoundSortClause => src.columnFragments s.field)
      (fun s => ⟨src.dialect.lowerFieldPath s.field, s.direction, src.lowerer.nullOrder s.direction⟩)
      fun s _ => written_orderEntry src _ (written_column src s.field) (hnulls s.direction)
  case byKey =>
    split
    · exact hmap (fun pk => [.identifier pk]) (fun pk => ⟨src.dialect.quoteIdent pk, .asc, ""⟩)
        fun pk _ => written_orderEntry src _ (.identifier pk) hempty
    · exact .nil

theorem trailing_order (q : BoundAltrQueryIR) :
    Trailing src (if src.orderFragments q = [] then [] else
        code " ORDER BY " ++ commaSep (src.orderFragments q))
      (if (src.lowerer.orderItems q).isEmpty then "" else " ORDER BY " ++ ", ".intercalate
        ((src.lowerer.orderItems q).map OrderItem.text)) := by
  have hitems := written_orderItems src q
  have hall := Trailing.of_before " ORDER BY " (by decide) (by decide) (Written.commaSep hitems)
  cases hitem : src.lowerer.orderItems q with
  | nil =>
    rw [hitem] at hitems
    rw [List.forall₂_nil_right_iff.1 hitems]
    exact .empty
  | cons item items =>
    rw [hitem] at hitems hall
    obtain ⟨fs, l, -, -, hfragments⟩ := List.forall₂_cons_right_iff.1 hitems
    rw [hfragments] at hall ⊢
    exact hall

theorem trailing_count (word : String) (hne : word ≠ "") (hword : ∀ c ∈ word.toList, c ∉ quotes)
    (n : Option ℤ) :
    Trailing src (n.elim [] fun n => code (word ++ toString n))
      (n.elim "" fun n => word ++ toString n) := by
  cases n with
  | none => exact .empty
  | some n =>
    have hnumber : Written src (code (toString n)) (toString n) := .code (int_not_mem_quotes n)
    have hcode := Trailing.of_before word hne hword hnumber
    have happend : code word ++ code (toString n) = code (word ++ toString n) := by
      simp [code, Fragment.code]
    rwa [happend] at hcode

theorem written_select (q : BoundAltrQueryIR) (w : Option Condition) (limit offset : Option ℤ) :
    Written src (src.template q [] (.select (q.projection.map src.lowerer.selectItem)
        (src.lowerer.targetTable q.entity) w (src.lowerer.orderItems q) limit offset))
      (src.dialect.statementText (.select (q.projection.map src.lowerer.selectItem)
        (src.lowerer.targetTable q.entity) w (src.lowerer.orderItems q) limit offset)) := by
  have hend : Trailing src (code ";") ";" := .code (by decide) (by decide)
  have hitem : OrderItem.text = fun o => o.column ++ (" " ++ (o.direction.value ++ o.nulls)) := by
    funext o
    simp only [OrderItem.text, toString, String.append_assoc]
  have hwindow := (trailing_order src q).append
    ((trailing_count src " LIMIT " (by decide) (by decide) limit).append
      ((trailing_count src " OFFSET " (by decide) (by decide) offset).append hend))
  have hall := Written.before (s := "SELECT ") (by decide) ((written_items src q.projection).between
    " FROM " (by decide) (by decide) (written_tail src (written_table src q.entity) w hwindow))
  unfold SqlDialect.statementText
  dsimp only [toString] at hall ⊢
  simp only [String.append_assoc, hitem] at hall ⊢
  exact hall

end

end AltrStream.Lowering
