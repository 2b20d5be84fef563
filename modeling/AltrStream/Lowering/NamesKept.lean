import AltrStream.Lowering.Quoting

/-! # The names of a query come through

Every reference of a query is read back from its text, and every statement as its template
with the names in it, if and only if the names can stand in the quotes of the source and
the keys in its JSON paths. PostgreSQL's `quote_ident` leaves the quotes in a name as they
are, and no source escapes the keys below a JSON column.
-/
namespace AltrStream.Lowering
open Foundations Python QueryEngine Semantics
open Fragment (code commaSep Written Faithful)

/-- The names of a query are read back wherever they are written. -/
structure NamesKept (paths : JsonPaths) (src : SqlSource) (q : BoundAltrQueryIR) : Prop where
  references : ∀ ref ∈ references q,
    ReadsAs paths src (ref.fragments src) (ref.text src).toList
  /-- Different names have different texts. -/
  distinct : ∀ ref ∈ Lowering.references q, ∀ ref' ∈ Lowering.references q,
    ref.text src = ref'.text src → ref.fragments src = ref'.fragments src
  statements : ∀ r, src.lowerer.lower q = .ok r →
    List.Forall₂ (fun template p => ReadsAs paths src (template p.statement) p.query.toList)
      (src.templates q) r.queries

section
variable {paths : JsonPaths} {src : SqlSource}

/-! ### References -/

theorem written_reference (src : SqlSource) (ref : Reference) :
    Written src (ref.fragments src) (ref.text src) := by
  cases ref with
  | table entity => exact written_table src entity
  | column field => exact written_column src field
  | name n => exact .identifier n

/-- What is written is read back if and only if its fragments are faithful. -/
theorem Fragment.Written.readsAs_iff {fs : List Fragment} {s : String} (h : Written src fs s) :
    ReadsAs paths src fs s.toList ↔ ∀ f ∈ fs, f.Faithful paths src := by
  rw [h.text]
  exact Fragment.readsAs_text_iff h.apart h.fits

theorem faithful_code (s : String) : ∀ f ∈ code s, f.Faithful paths src := by
  intro f hf
  obtain ⟨c, -, rfl⟩ := List.mem_map.1 hf
  exact trivial

theorem faithful_table_iff (entity : BoundEntity) :
    (∀ f ∈ src.tableFragments entity, f.Faithful paths src) ↔
      (Reference.table entity).Safe paths src := by
  have hempty : src.Quotable "" := fun _ => by decide
  have hcode := @faithful_code paths src "."
  have hsafe : (Reference.table entity).Safe paths src ↔
      src.Quotable entity.namespace_ ∧ src.Quotable entity.name := Iff.rfl
  rw [hsafe, SqlSource.tableFragments]
  split_ifs with hqualifies
  · simp only [List.forall_mem_cons, List.forall_mem_append, List.not_mem_nil, false_implies,
      implies_true, and_true, Faithful]
    exact and_congr_right fun _ => and_iff_right hcode
  · simp only [List.forall_mem_singleton, Faithful]
    refine (and_iff_right ?_).symm
    cases src with
    | postgresql =>
      have hnone : entity.namespace_ = "" := not_not.1 hqualifies
      rw [hnone]
      exact hempty
    | _ => exact fun h => absurd h (by decide)

theorem faithful_nested_iff (root : String) {keys : List String} (hkeys : keys ≠ []) :
    (∀ f ∈ src.nestedFragments root keys, f.Faithful paths src) ↔
      src.Quotable root ∧ ∀ k ∈ keys, paths.Takes src k.toList := by
  have hcode := @faithful_code paths src
  cases src with
  | postgresql =>
    have hfragments : SqlSource.postgresql.nestedFragments root keys = .identifier root ::
        (keys.dropLast.flatMap (fun k => code "->" ++ [.string k]) ++
          (code "->>" ++ [.string (keys.getLastD "")])) := rfl
    have hchain : ∀ ks : List String, (∀ f ∈ ks.flatMap (fun k => code "->" ++ [.string k]),
        f.Faithful paths .postgresql) ↔ ∀ k ∈ ks, paths.Takes .postgresql k.toList := by
      intro ks
      simp only [List.forall_mem_flatMap, List.forall_mem_append, List.forall_mem_singleton]
      exact forall₂_congr fun k _ => and_iff_right (hcode "->")
    rw [hfragments, List.forall_mem_cons, List.forall_mem_append, List.forall_mem_append, hchain,
      List.forall_mem_singleton]
    refine and_congr_right fun _ => ?_
    rw [and_iff_right (hcode "->>")]
    cases keys using List.reverseRecOn with
    | nil => exact absurd rfl hkeys
    | append_singleton ks k =>
      rw [List.dropLast_concat, List.getLastD_concat, List.forall_mem_append, List.forall_mem_singleton]
      rfl
  | mysql =>
    have hfragments : SqlSource.mysql.nestedFragments root keys = code "JSON_UNQUOTE(JSON_EXTRACT(" ++
        .identifier root :: (code ", " ++ .path keys :: code "))") := rfl
    simp only [hfragments, List.forall_mem_append, List.forall_mem_cons]
    rw [and_iff_right (hcode _), and_iff_right (hcode _), and_iff_left (hcode _)]
    rfl
  | sqlite =>
    have hfragments : SqlSource.sqlite.nestedFragments root keys = code "json_extract(" ++
        .identifier root :: (code ", " ++ .path keys :: code ")") := rfl
    simp only [hfragments, List.forall_mem_append, List.forall_mem_cons]
    rw [and_iff_right (hcode _), and_iff_right (hcode _), and_iff_left (hcode _)]
    rfl

theorem faithful_column_iff (field : BoundFieldPath) :
    (∀ f ∈ src.columnFragments field, f.Faithful paths src) ↔
      (Reference.column field).Safe paths src := by
  have hsafe : (Reference.column field).Safe paths src ↔ src.Quotable field.path.root ∧
      ∀ k ∈ field.path.keys, paths.Takes src k.toList := Iff.rfl
  rw [hsafe, SqlSource.columnFragments]
  cases hkeys : field.path.keys with
  | nil =>
    have hflat : ¬field.path.isNested = true := by simp [FieldPath.isNested, hkeys]
    have hleaf : field.path.leaf = field.path.root := by simp [FieldPath.leaf, hkeys]
    rw [if_neg hflat, List.forall_mem_singleton, hleaf]
    exact (and_iff_left fun _ hk => absurd hk List.not_mem_nil).symm
  | cons k ks =>
    have hnested : field.path.isNested = true := by simp [FieldPath.isNested, hkeys]
    rw [if_pos hnested]
    exact faithful_nested_iff _ (List.cons_ne_nil k ks)

/-- A reference is faithful if and only if its names are safe. -/
theorem faithful_reference_iff (ref : Reference) :
    (∀ f ∈ ref.fragments src, f.Faithful paths src) ↔ ref.Safe paths src := by
  cases ref with
  | table entity => exact faithful_table_iff entity
  | column field => exact faithful_column_iff field
  | name n => exact List.forall_mem_singleton

theorem readsAs_reference_iff (ref : Reference) :
    ReadsAs paths src (ref.fragments src) (ref.text src).toList ↔ ref.Safe paths src :=
  (written_reference src ref).readsAs_iff.trans (faithful_reference_iff ref)

theorem refers_code (s : String) : ∀ f ∈ code s, f.Refers src := by
  intro f hf
  obtain ⟨c, -, rfl⟩ := List.mem_map.1 hf
  exact trivial

theorem refers_nested (src : SqlSource) (root : String) (keys : List String) :
    ∀ f ∈ src.nestedFragments root keys, f.Refers src := by
  have hcode := @refers_code src
  have hname : (Fragment.identifier root).Refers src := trivial
  cases src with
  | postgresql =>
    have hkey : ∀ k, (Fragment.string k).Refers .postgresql := fun _ => rfl
    refine List.forall_mem_cons.2 ⟨hname, List.forall_mem_append.2 ⟨?_, ?_⟩⟩
    · refine List.forall_mem_flatMap.2 fun k _ => ?_
      exact List.forall_mem_append.2 ⟨hcode "->", List.forall_mem_singleton.2 (hkey k)⟩
    · exact List.forall_mem_append.2 ⟨hcode "->>", List.forall_mem_singleton.2 (hkey _)⟩
  | mysql | sqlite =>
    have hpath : ∀ src', src' ≠ .postgresql → (Fragment.path keys).Refers src' := fun _ h => h
    refine List.forall_mem_append.2 ⟨hcode _, List.forall_mem_cons.2 ⟨hname, ?_⟩⟩
    refine List.forall_mem_append.2 ⟨hcode ", ", List.forall_mem_cons.2 ⟨?_, hcode _⟩⟩
    exact hpath _ (by decide)

theorem refers_reference (src : SqlSource) (ref : Reference) : ∀ f ∈ ref.fragments src, f.Refers src := by
  have hcode := @refers_code src
  have hname : ∀ name, (Fragment.identifier name).Refers src := fun _ => trivial
  cases ref with
  | name n => exact List.forall_mem_singleton.2 (hname n)
  | table entity =>
    have hparts := List.forall_mem_cons.2 ⟨hname entity.namespace_,
      List.forall_mem_append.2 ⟨hcode ".", List.forall_mem_singleton.2 (hname entity.name)⟩⟩
    unfold Reference.fragments SqlSource.tableFragments
    dsimp only
    split_ifs
    · exact hparts
    · exact List.forall_mem_singleton.2 (hname _)
  | column field =>
    unfold Reference.fragments SqlSource.columnFragments
    dsimp only
    split_ifs
    · exact refers_nested src _ _
    · exact List.forall_mem_singleton.2 (hname _)

/-! ### Statements -/

theorem faithful_operand (x : SqlOperand) :
    ∀ f ∈ src.operandFragments x, f.Faithful paths src := by
  have hcode := @faithful_code paths src
  have hnow : (Fragment.string "now").Faithful paths src := (by decide : '\'' ∉ "now".toList)
  have hcall : ∀ call, ∀ f ∈ code call ++ .string "now" :: code ")", f.Faithful paths src := fun call =>
    List.forall_mem_append.2 ⟨hcode call, List.forall_mem_cons.2 ⟨hnow, hcode ")"⟩⟩
  cases x with
  | param i => exact hcode _
  | null => exact hcode _
  | current k =>
    cases src with
    | sqlite => cases k <;> exact hcall _
    | _ => exact hcode _

/-- What is joined is faithful if all its parts are. -/
theorem faithful_commaSep {l : List (List Fragment)}
    (h : ∀ fs ∈ l, ∀ f ∈ fs, f.Faithful paths src) : ∀ f ∈ commaSep l, f.Faithful paths src := by
  induction l with
  | nil => exact fun _ hf => absurd hf List.not_mem_nil
  | cons fs l ih =>
    obtain ⟨hfs, hl⟩ := List.forall_mem_cons.1 h
    cases l with
    | nil => simpa [commaSep] using hfs
    | cons gs l =>
      have hrest := ih hl
      unfold commaSep at hrest ⊢
      rw [List.intercalate_cons_cons, List.append_assoc]
      exact List.forall_mem_append.2 ⟨hfs, List.forall_mem_append.2 ⟨faithful_code _, hrest⟩⟩

theorem faithful_list (xs : List SqlOperand) : ∀ f ∈ src.listFragments xs, f.Faithful paths src :=
  faithful_commaSep (List.forall_mem_map.2 fun x _ => faithful_operand x)

/-- A condition is faithful on safe columns. -/
theorem faithful_condition {c : Condition}
    (h : ∀ x ∈ c.columns, (Reference.column x).Safe paths src) :
    ∀ f ∈ src.conditionFragments c, f.Faithful paths src := by
  have hcode := @faithful_code paths src
  have hoperand := @faithful_operand paths src
  have hlist := @faithful_list paths src
  have hescape : Fragment.escape.Faithful paths src := trivial
  induction c with
  | constant => exact hcode _
  | blank => exact fun _ hf => absurd hf List.not_mem_nil
  | and l r hl hr | or l r hl hr =>
    obtain ⟨hleft, hright⟩ := List.forall_mem_append.1 h
    exact List.forall_mem_append.2 ⟨hl hleft, List.forall_mem_append.2 ⟨hcode _, hr hright⟩⟩
  | not e ih => exact List.forall_mem_append.2 ⟨hcode _, ih h⟩
  | group e ih =>
    exact List.forall_mem_append.2 ⟨hcode _, List.forall_mem_append.2 ⟨ih h, hcode _⟩⟩
  | isNull c | isNotNull c =>
    have hcolumn := (faithful_column_iff c).2 (h c (List.mem_singleton_self c))
    exact List.forall_mem_append.2 ⟨hcolumn, hcode _⟩
  | compare c op x =>
    have hcolumn := (faithful_column_iff c).2 (h c (List.mem_singleton_self c))
    exact List.forall_mem_append.2 ⟨hcolumn, List.forall_mem_append.2 ⟨hcode _, hoperand x⟩⟩
  | between c lo hi | notBetween c lo hi =>
    have hcolumn := (faithful_column_iff c).2 (h c (List.mem_singleton_self c))
    have hbounds := List.forall_mem_append.2
      ⟨hoperand lo, List.forall_mem_append.2 ⟨hcode " AND ", hoperand hi⟩⟩
    exact List.forall_mem_append.2 ⟨hcolumn, List.forall_mem_append.2 ⟨hcode _, hbounds⟩⟩
  | isIn c xs | notIn c xs =>
    have hcolumn := (faithful_column_iff c).2 (h c (List.mem_singleton_self c))
    have hlisted := List.forall_mem_append.2 ⟨hlist xs, hcode ")"⟩
    exact List.forall_mem_append.2 ⟨hcolumn, List.forall_mem_append.2 ⟨hcode _, hlisted⟩⟩
  | like c p | notLike c p =>
    have hcolumn := (faithful_column_iff c).2 (h c (List.mem_singleton_self c))
    have hpattern := List.forall_mem_append.2 ⟨hoperand p, List.forall_mem_append.2
      ⟨hcode " ESCAPE ", List.forall_mem_singleton.2 hescape⟩⟩
    exact List.forall_mem_append.2 ⟨hcolumn, List.forall_mem_append.2 ⟨hcode _, hpattern⟩⟩

theorem faithful_where {w : Option Condition}
    (h : ∀ x ∈ w.elim [] Condition.columns, (Reference.column x).Safe paths src) :
    ∀ f ∈ src.whereFragments w, f.Faithful paths src := by
  cases w with
  | none => exact fun _ hf => absurd hf List.not_mem_nil
  | some c => exact List.forall_mem_append.2 ⟨faithful_code _, faithful_condition h⟩

section
variable {q : BoundAltrQueryIR} (hsafe : ∀ ref ∈ references q, ref.Safe paths src)
include hsafe

theorem faithful_targetTable : ∀ f ∈ src.tableFragments q.entity, f.Faithful paths src :=
  (faithful_table_iff q.entity).2 (hsafe _ (by simp [references]))

theorem safe_pathColumns : ∀ x ∈ pathColumns q, (Reference.column x).Safe paths src := fun x hx =>
  hsafe _ (by simp [references, hx])

omit hsafe in
/-- What stands behind the table of a mutation or a READ. -/
theorem faithful_tail {w : Option Condition} {fs gs : List Fragment}
    (hfs : ∀ f ∈ fs, f.Faithful paths src)
    (hw : ∀ x ∈ w.elim [] Condition.columns, (Reference.column x).Safe paths src)
    (hgs : ∀ f ∈ gs, f.Faithful paths src) :
    ∀ f ∈ fs ++ (src.whereFragments w ++ gs), f.Faithful paths src :=
  List.forall_mem_append.2 ⟨hfs, List.forall_mem_append.2 ⟨faithful_where hw, hgs⟩⟩

theorem faithful_insert {columns : List String} (hcolumns : ∀ c ∈ columns, src.Quotable c)
    (table : String) (names : List String) (rows : List (List SqlOperand)) :
    ∀ f ∈ src.template q columns (.insert table names rows), f.Faithful paths src := by
  have hcode := @faithful_code paths src
  have hnames : ∀ f ∈ commaSep (columns.map fun c => [.identifier c]), f.Faithful paths src :=
    faithful_commaSep (List.forall_mem_map.2 fun c hc => List.forall_mem_singleton.2 (hcolumns c hc))
  have htuple : ∀ row : List SqlOperand,
      ∀ f ∈ code "(" ++ (src.listFragments row ++ code ")"), f.Faithful paths src := fun row =>
    List.forall_mem_append.2 ⟨hcode _, List.forall_mem_append.2 ⟨faithful_list row, hcode _⟩⟩
  have hrows := faithful_commaSep (List.forall_mem_map.2 fun row (_ : row ∈ rows) => htuple row)
  have hvalues := List.forall_mem_append.2 ⟨hrows, hcode (src.dialect.returning ++ ";")⟩
  have hlist := List.forall_mem_append.2
    ⟨hnames, List.forall_mem_append.2 ⟨hcode ") VALUES ", hvalues⟩⟩
  exact List.forall_mem_append.2 ⟨hcode _, List.forall_mem_append.2
    ⟨faithful_targetTable hsafe, List.forall_mem_append.2 ⟨hcode _, hlist⟩⟩⟩

theorem faithful_update {columns : List String} (hcolumns : ∀ c ∈ columns, src.Quotable c)
    (table : String) (assignments : List (String × SqlOperand)) {w : Option Condition}
    (hw : ∀ x ∈ w.elim [] Condition.columns, (Reference.column x).Safe paths src) :
    ∀ f ∈ src.template q columns (.update table assignments w), f.Faithful paths src := by
  have hcode := @faithful_code paths src
  have hitem : ∀ pair ∈ columns.zip assignments, ∀ f ∈ Fragment.identifier pair.1 ::
      (code " = " ++ src.operandFragments pair.2.2), f.Faithful paths src := fun pair hpair =>
    List.forall_mem_cons.2 ⟨hcolumns _ (List.of_mem_zip hpair).1,
      List.forall_mem_append.2 ⟨hcode _, faithful_operand _⟩⟩
  have hitems := faithful_commaSep (List.forall_mem_map.2 hitem)
  have htail := faithful_tail hitems hw (hcode (src.dialect.returning ++ ";"))
  exact List.forall_mem_append.2 ⟨hcode _, List.forall_mem_append.2
    ⟨faithful_targetTable hsafe, List.forall_mem_append.2 ⟨hcode _, htail⟩⟩⟩

theorem faithful_items (hop : q.operation = .read) :
    ∀ sel ∈ q.projection, ∀ f ∈ src.itemFragments sel, f.Faithful paths src := by
  intro sel hsel
  have hcolumn : sel.field ∈ pathColumns q := by
    simp only [pathColumns, hop, List.mem_append, List.mem_map]
    exact .inl (.inl (.inr ⟨sel, hsel, rfl⟩))
  refine List.forall_mem_append.2
    ⟨(faithful_column_iff _).2 (safe_pathColumns hsafe _ hcolumn), ?_⟩
  cases halias : sel.alias_.filter fun a => a ≠ "" with
  | none => exact fun _ hf => absurd hf List.not_mem_nil
  | some a =>
    have ha : sel.alias_ = some a := (Option.filter_eq_some_iff.1 halias).1
    have hname : (Reference.name a).Safe paths src := hsafe _ (by
      simp only [references, hop, List.mem_append, List.mem_map]
      exact .inr ⟨a, .inl (List.mem_filterMap.2 ⟨sel, hsel, ha⟩), rfl⟩)
    exact List.forall_mem_append.2 ⟨faithful_code _, List.forall_mem_singleton.2 hname⟩

theorem faithful_order (hop : q.operation = .read) :
    ∀ fs ∈ src.orderFragments q, ∀ f ∈ fs, f.Faithful paths src := by
  have hentry : ∀ {column : List Fragment} {direction : SortDirection} {nulls : String},
      (∀ f ∈ column, f.Faithful paths src) →
      ∀ f ∈ SqlSource.orderEntry column direction nulls, f.Faithful paths src := fun hcolumn =>
    List.forall_mem_append.2 ⟨hcolumn, faithful_code _⟩
  have hcolumn : ∀ x ∈ pathColumns q, ∀ f ∈ src.columnFragments x, f.Faithful paths src :=
    fun x hx => (faithful_column_iff x).2 (safe_pathColumns hsafe x hx)
  simp only [pathColumns, hop] at hcolumn
  obtain ⟨hcolumns, hsort⟩ := List.forall_mem_append.1 hcolumn
  obtain ⟨-, hranking⟩ := List.forall_mem_append.1 hcolumns
  unfold SqlSource.orderFragments
  refine List.forall_mem_append.2 ⟨List.forall_mem_append.2 ⟨?ranked, ?sorted⟩, ?byKey⟩
  case ranked => exact List.forall_mem_map.2 fun r hr => hentry (hranking _ (List.mem_map_of_mem hr))
  case sorted => exact List.forall_mem_map.2 fun s hs => hentry (hsort _ (List.mem_map_of_mem hs))
  case byKey =>
    split
    · next hplain =>
      refine List.forall_mem_map.2 fun pk hpk => hentry (List.forall_mem_singleton.2 ?_)
      have hname : (Reference.name pk).Safe paths src := hsafe _ (by
        simp only [references, hop, hplain, List.mem_append, List.mem_map]
        exact .inr ⟨pk, .inr hpk, rfl⟩)
      exact hname
    · exact fun _ hfs => absurd hfs List.not_mem_nil

theorem faithful_select (hop : q.operation = .read) (items : List (String × Option String))
    (table : String) (orderBy : List OrderItem) (limit offset : Option ℤ) {w : Option Condition}
    (hw : ∀ x ∈ w.elim [] Condition.columns, (Reference.column x).Safe paths src) :
    ∀ f ∈ src.template q [] (.select items table w orderBy limit offset), f.Faithful paths src := by
  have hcode := @faithful_code paths src
  have hselected : ∀ f ∈ if q.projection = [] then code "*"
      else commaSep (q.projection.map src.itemFragments), f.Faithful paths src := by
    split
    · exact hcode _
    · exact faithful_commaSep (List.forall_mem_map.2 (faithful_items hsafe hop))
  have horder : ∀ f ∈ if src.orderFragments q = [] then []
      else code " ORDER BY " ++ commaSep (src.orderFragments q), f.Faithful paths src := by
    split
    · exact fun _ hf => absurd hf List.not_mem_nil
    · exact List.forall_mem_append.2 ⟨hcode _, faithful_commaSep (faithful_order hsafe hop)⟩
  have hcount : ∀ (text : ℤ → String) (n : Option ℤ),
      ∀ f ∈ n.elim [] fun n => code (text n), f.Faithful paths src := by
    intro text n
    cases n with
    | none => exact fun _ hf => absurd hf List.not_mem_nil
    | some n => exact hcode _
  have hwindow := List.forall_mem_append.2 ⟨hcount (fun n => s!" LIMIT {n}") limit,
    List.forall_mem_append.2 ⟨hcount (fun n => s!" OFFSET {n}") offset, hcode ";"⟩⟩
  have htail := faithful_tail (faithful_targetTable hsafe) hw
    (List.forall_mem_append.2 ⟨horder, hwindow⟩)
  exact List.forall_mem_append.2 ⟨hcode _, List.forall_mem_append.2
    ⟨hselected, List.forall_mem_append.2 ⟨hcode _, htail⟩⟩⟩

end

/-! ### Runs -/

/-- The columns that SET fills are those of the assignments. -/
theorem returns_assignments (assignments : List BoundMutationAssignment) :
    Returns (assignments.mapM src.lowerer.lowerAssignment) fun items =>
      items.map (·.1) =
        (assignments.map (·.field.path.leaf)).map src.dialect.quoteIdent := by
  induction assignments with
  | nil => exact Returns.pure rfl
  | cons a assignments ih =>
    rw [List.mapM_cons]
    have hone : Returns (src.lowerer.lowerAssignment a) fun item =>
        item.1 = src.dialect.quoteIdent a.field.path.leaf := Returns.after fun _ => Returns.pure rfl
    refine Returns.bind hone fun item hitem => Returns.bind ih fun items hitems => Returns.pure ?_
    rw [List.map_cons, hitem, hitems]
    rfl

/-- The statement is written as the template, and faithfully if the names are safe. -/
def Renders (paths : JsonPaths) (src : SqlSource) (q : BoundAltrQueryIR)
    (template : SqlStatement → List Fragment) (statement : SqlStatement) : Prop :=
  Written src (template statement) (src.dialect.statementText statement) ∧
    ((∀ ref ∈ references q, ref.Safe paths src) →
      ∀ f ∈ template statement, f.Faithful paths src)

theorem returns_where_safe (q : BoundAltrQueryIR) (hop : q.operation ≠ .create) :
    Returns (src.lowerer.lowerWhere q.where_) fun w => (∀ ref ∈ references q, ref.Safe paths src) →
      ∀ x ∈ w.elim [] Condition.columns, (Reference.column x).Safe paths src := by
  have htested : ∀ x ∈ q.where_.elim [] (fun e => e.atoms.map (·.field)), x ∈ pathColumns q := by
    intro x hx
    unfold pathColumns
    cases h : q.operation with
    | create => exact absurd h hop
    | update | delete => exact hx
    | read => exact List.mem_append_left _ (List.mem_append_left _ (List.mem_append_left _ hx))
  exact (SqlSource.returns_lowerWhere htested).mono fun w hw hsafe x hx =>
    safe_pathColumns hsafe x (hw x hx)

variable (paths) in
theorem renders_lowerStatement (q : BoundAltrQueryIR) (hop : q.operation ≠ .create) :
    ∃ template, src.templates q = [template] ∧
      Returns (src.lowerer.lowerStatement q) (Renders paths src q template) := by
  have hwhere := @returns_where_safe paths src q hop
  unfold SqlSource.templates SqlLowerer.lowerStatement
  cases h : q.operation with
  | create => exact absurd h hop
  | update =>
    refine ⟨_, rfl, Returns.bind (returns_assignments q.assignments) fun items hitems => ?_⟩
    refine Returns.bind hwhere fun w hw => Returns.pure ⟨written_update src q hitems w, fun hsafe => ?_⟩
    refine faithful_update hsafe (List.forall_mem_map.2 fun a ha => ?_) _ _ (hw hsafe)
    have hname : (Reference.name a.field.path.leaf).Safe paths src := hsafe _ (by
      simp only [references, h, List.mem_append, List.mem_map]
      exact .inr ⟨_, ⟨a, ha, rfl⟩, rfl⟩)
    exact hname
  | delete =>
    refine ⟨_, rfl, Returns.bind hwhere fun w hw => Returns.pure ⟨written_delete src q w, ?_⟩⟩
    intro hsafe
    have hcode := @faithful_code paths src
    exact List.forall_mem_append.2 ⟨hcode _, faithful_tail (faithful_targetTable hsafe) (hw hsafe)
      (hcode (src.dialect.returning ++ ";"))⟩
  | read =>
    refine ⟨_, rfl, Returns.bind hwhere fun w hw => Returns.pure ⟨written_select src q w _ _, ?_⟩⟩
    exact fun hsafe => faithful_select hsafe h _ _ _ _ _ (hw hsafe)

theorem renders_lowerGroup {q : BoundAltrQueryIR} (hop : q.operation = .create)
    {group : List BoundCreateRecord} (hgroup : group ∈ groupRecords (recordsToCreate q)) :
    Returns (src.lowerer.lowerGroup (src.lowerer.targetTable q.entity) group)
      (Renders paths src q (src.template q (group.head?.elim [] columnTuple))) := by
  refine Returns.after fun rows => Returns.pure ⟨written_insert src q _ rows, fun hsafe => ?_⟩
  refine faithful_insert hsafe (fun name hname => ?_) _ _ rows
  obtain ⟨rec, hrec, hmem⟩ : ∃ rec ∈ group, name ∈ columnTuple rec := by
    cases group with
    | nil => cases hname
    | cons rec rest => exact ⟨rec, List.mem_cons_self, hname⟩
  have hrecord : rec ∈ recordsToCreate q := by
    rw [← flatten_groupRecords (recordsToCreate q)]
    exact List.mem_flatten.2 ⟨group, hgroup, hrec⟩
  have hsafeName : (Reference.name name).Safe paths src := hsafe _ (by
    simp only [references, hop, List.mem_append, List.mem_map]
    exact .inr ⟨name, List.mem_flatMap.2 ⟨rec, hrecord, hmem⟩, rfl⟩)
  exact hsafeName

variable (paths) in
/-- The queries of a result with the templates that they are written as. -/
theorem renders_of_lower {q : BoundAltrQueryIR} {r : PhysicalQueryResult}
    (h : src.lowerer.lower q = .ok r) :
    List.Forall₂ (fun template p => p.query = src.dialect.statementText p.statement ∧
      Renders paths src q template p.statement) (src.templates q) r.queries := by
  have hquery : ∀ {m : LowerM SqlStatement} {template : SqlStatement → List Fragment}
      {p : PhysicalQuery}, Returns m (Renders paths src q template) →
      src.lowerer.physicalQuery q m = .ok p →
      p.query = src.dialect.statementText p.statement ∧ Renders paths src q template p.statement := by
    intro m template p hm hp
    simp only [SqlLowerer.physicalQuery, bind_eq_ok, pure_eq_ok] at hp
    obtain ⟨⟨statement, parameters⟩, hrun, rfl⟩ := hp
    exact ⟨rfl, hm [] statement parameters hrun⟩
  unfold SqlLowerer.lower at h
  split at h
  · next hop =>
    simp only [bind_eq_ok] at h
    obtain ⟨queries, hqueries, h⟩ := h
    have hr : r.queries = queries := by
      split at h <;> (rw [← pure_eq_ok.1 h]; rfl)
    rw [hr, SqlSource.templates, hop, List.forall₂_map_left_iff]
    obtain ⟨hlength, hzip⟩ := List.forall₂_iff_zip.1 (mapM_eq_ok.1 hqueries)
    refine List.forall₂_iff_zip.2 ⟨hlength, fun {group p} hmem => ?_⟩
    exact hquery (renders_lowerGroup hop (List.of_mem_zip hmem).1) (hzip hmem)
  · next hop =>
    simp only [bind_eq_ok, pure_eq_ok] at h
    obtain ⟨p, hp, rfl⟩ := h
    obtain ⟨template, htemplates, hrenders⟩ := renders_lowerStatement paths q hop
    rw [htemplates]
    exact .cons (hquery hrenders hp) .nil

end

end AltrStream.Lowering
