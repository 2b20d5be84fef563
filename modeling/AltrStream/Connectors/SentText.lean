import AltrStream.Domain.QueryValidation
import AltrStream.Lowering.Alignment
import AltrStream.Python.Format

/-! # The text that a server receives

asyncpg and aiosqlite send a text as it is. aiomysql sends `text % args` unless
`args` is `None`, and the connector passes a tuple even if there are no parameters:
every `%` of the text is read as a conversion, also in quotes.
-/
namespace AltrStream.Connectors
open Foundations Python Domain QueryEngine Lowering Semantics

section
variable (printer : Format.Printer) (literal : Scalar → List Char)

/-- What the driver sends for a text and its parameters, which aiomysql escapes to literals. -/
def sentText (src : SqlSource) (text : String) (parameters : List Scalar) :
    Except FormatError (List Char) :=
  match src with
  | .mysql => Format.format printer text.toList (parameters.map literal)
  | .postgresql | .sqlite => .ok text.toList

end

/-! ### Placeholders outside quotes -/

/-- The text with the values in place of the `%s` outside quotes, given the quote that is open. -/
def fillMarks : Option Char → List Char → List (List Char) → Option (List Char)
  | _, [], values => if values = [] then some [] else none
  | some q, c :: text, values =>
    (fillMarks (if c = q then none else some q) text values).map (c :: ·)
  | none, '%' :: 's' :: text, values =>
    match values with
    | [] => none
    | value :: values => (fillMarks none text values).map (value ++ ·)
  | none, c :: text, values =>
    (fillMarks (if c ∈ quotes then some c else none) text values).map (c :: ·)

/-- The characters in quotes. -/
def quotedChars : Option Char → List Char → List Char
  | _, [] => []
  | some q, c :: text => if c = q then quotedChars none text else c :: quotedChars (some q) text
  | none, c :: text => quotedChars (if c ∈ quotes then some c else none) text

/-- A text that has a number of `%s` and no other `%` outside quotes. -/
inductive Marked : Option Char → List Char → ℕ → Prop
  | nil (quote : Option Char) : Marked quote [] 0
  | inside {q c : Char} {text : List Char} {n : ℕ}
      (h : Marked (if c = q then none else some q) text n) : Marked (some q) (c :: text) n
  | mark {text : List Char} {n : ℕ} (h : Marked none text n) : Marked none ('%' :: 's' :: text) (n + 1)
  | outside {c : Char} {text : List Char} {n : ℕ} (hc : c ≠ '%')
      (h : Marked (if c ∈ quotes then some c else none) text n) : Marked none (c :: text) n

namespace Marked

variable {q : Char} {text rest : List Char} {n : ℕ}

theorem code {s : List Char} (hs : ∀ c ∈ s, c ≠ '%' ∧ c ∉ quotes) (h : Marked none rest n) :
    Marked none (s ++ rest) n := by
  induction s with
  | nil => exact h
  | cons c s ih =>
    obtain ⟨⟨hc, hquote⟩, hs⟩ := List.forall_mem_cons.1 hs
    exact .outside hc (by rw [if_neg hquote]; exact ih hs)

theorem quoted {s : List Char} (hs : q ∉ s) (h : Marked none rest n) :
    Marked (some q) (s ++ q :: rest) n := by
  induction s with
  | nil => exact .inside (by rw [if_pos rfl]; exact h)
  | cons c s ih =>
    obtain ⟨hc, hs⟩ := List.ne_and_not_mem_of_not_mem_cons hs
    exact .inside (by rw [if_neg (Ne.symm hc)]; exact ih hs)

theorem doubled (hq : q ∈ quotes) (s : List Char) (h : Marked none rest n) :
    Marked (some q) (replaceChar q [q, q] s ++ q :: rest) n := by
  have hne : q ≠ '%' := by
    rintro rfl
    exact absurd hq (by decide)
  induction s with
  | nil => exact quoted (by simp [replaceChar]) h
  | cons c s ih =>
    rw [replaceChar, List.flatMap_cons, ← replaceChar]
    split
    · refine .inside ?_
      rw [if_pos rfl]
      refine .outside hne ?_
      rw [if_pos hq]
      exact ih
    · next hc => exact .inside (by rwa [if_neg hc])

/-- A lowered text keeps its marks outside quotes. -/
theorem of_spells {xs : List ℕ} {s : String} (hs : Spells .mysql xs s) (h : Marked none rest n) :
    Marked none (s.toList ++ rest) (xs.length + n) := by
  induction hs generalizing rest n with
  | code s hcode => simpa using code hcode h
  | identifier name _ =>
    have htext : (SqlSource.mysql.dialect.quoteIdent name).toList ++ rest =
        '\x60' :: (replaceChar '\x60' ['\x60', '\x60'] name.toList ++ '\x60' :: rest) := by
      simp [SqlSource.dialect, SqlSource.lowerer, MySQL.lowerer, MySQL.dialect, MySQL.quoteIdent,
        toString]
    rw [htext, List.length_nil, Nat.zero_add]
    exact .outside (by decide) (by rw [if_pos (by decide)]; exact doubled (by decide) _ h)
  | literal s hs =>
    rw [List.length_nil, Nat.zero_add, String.toList_append, String.toList_append, List.append_assoc,
      List.append_assoc]
    exact .outside (by decide) (by rw [if_pos (by decide)]; exact quoted hs h)
  | mark i =>
    have htext : (SqlSource.mysql.dialect.placeholder i).toList ++ rest = '%' :: 's' :: rest := by
      simp [SqlSource.dialect, SqlSource.lowerer, MySQL.lowerer, MySQL.dialect]
    rw [htext, List.length_singleton, Nat.add_comm]
    exact .mark h
  | append _ _ _ ihs iht =>
    rw [String.toList_append, List.append_assoc, List.length_append, Nat.add_assoc]
    exact ihs (iht h)

/-- Quoted characters are read over. -/
theorem skip {used : List Char} (hq : q ∉ used) (h : Marked (some q) (used ++ rest) n) :
    Marked (some q) rest n := by
  induction used with
  | nil => exact h
  | cons c used ih =>
    obtain ⟨hc, hused⟩ := List.ne_and_not_mem_of_not_mem_cons hq
    cases h with
    | inside h =>
      rw [if_neg (Ne.symm hc)] at h
      exact ih hused h

theorem tail {c : Char} (hc : c ≠ q) (h : Marked (some q) (c :: rest) n) : Marked (some q) rest n := by
  cases h with
  | inside h => rwa [if_neg hc] at h

end Marked

theorem fillMarks_skip {q : Char} {used : List Char} (hq : q ∉ used) (rest : List Char)
    (values : List (List Char)) :
    fillMarks (some q) (used ++ rest) values = (fillMarks (some q) rest values).map (used ++ ·) := by
  induction used with
  | nil => simp
  | cons c used ih =>
    obtain ⟨hc, hused⟩ := List.ne_and_not_mem_of_not_mem_cons hq
    rw [List.cons_append, fillMarks, if_neg (Ne.symm hc), ih hused, Option.map_map]
    rfl

/-! ### The operator on a text with marks -/

section
variable {printer : Format.Printer}

/-- A text without a `%` in quotes is filled. -/
theorem formatFuel_marked {quote : Option Char} {text : List Char} {n fuel : ℕ}
    {values : List (List Char)} (h : Marked quote text n) (hfuel : text.length ≤ fuel)
    (hvalues : values.length = n) (hplain : '%' ∉ quotedChars quote text)
    (hquote : ∀ q ∈ quote, q ≠ '%') :
    ∃ r, Format.formatFuel printer fuel text values = .ok r ∧
      fillMarks quote text values = some r := by
  have hnext : ∀ c : Char, c ≠ '%' → ∀ q ∈ (if c ∈ quotes then some c else none : Option Char), q ≠ '%' := by
    intro c hc q hq
    split at hq
    · rwa [← Option.some.inj hq]
    · cases hq
  induction h generalizing fuel values with
  | nil quote =>
    obtain rfl := List.length_eq_zero_iff.1 hvalues
    refine ⟨[], by cases fuel <;> rfl, ?_⟩
    unfold fillMarks
    simp
  | @inside q c text n h ih =>
    obtain ⟨fuel, rfl⟩ := Nat.exists_eq_succ_of_ne_zero (Nat.ne_zero_of_lt hfuel)
    have hc : c ≠ '%' := by
      rintro rfl
      rw [quotedChars, if_neg (Ne.symm (hquote q rfl))] at hplain
      exact hplain List.mem_cons_self
    have hrest : '%' ∉ quotedChars (if c = q then none else some q) text := by
      rw [quotedChars] at hplain
      split at hplain
      · next heq => rwa [if_pos heq]
      · next hne =>
        rw [if_neg hne]
        exact fun hmem => hplain (List.mem_cons_of_mem _ hmem)
    obtain ⟨r, hr, hfill⟩ := ih (Nat.le_of_succ_le_succ hfuel) hvalues hrest (by
      intro q' hq'
      split at hq'
      · cases hq'
      · exact hquote q' hq')
    refine ⟨c :: r, ?_, by rw [fillMarks, hfill]; rfl⟩
    rw [Format.formatFuel, if_neg hc, hr]
    rfl
  | @mark text n h ih =>
    obtain ⟨fuel, rfl⟩ := Nat.exists_eq_succ_of_ne_zero (Nat.ne_zero_of_lt hfuel)
    cases values with
    | nil => cases hvalues
    | cons value values =>
      have hrest : '%' ∉ quotedChars none text := by
        simpa [quotedChars, quotes] using hplain
      obtain ⟨r, hr, hfill⟩ := ih (Nat.le_of_succ_le (Nat.le_of_succ_le_succ hfuel))
        (Nat.succ.inj hvalues) hrest (by simp)
      refine ⟨value ++ r, ?_, by rw [fillMarks]; simp [hfill]⟩
      rw [Format.formatFuel, if_pos rfl, Format.parseSpec_s]
      change (do
        let s ← Format.Spec.convert ⟨false, 0, none, 's'⟩ printer value
        let r ← Format.formatFuel printer fuel text values
        return s ++ r) = _
      rw [Format.Spec.convert_plain, hr]
      rfl
  | @outside c text n hc h ih =>
    obtain ⟨fuel, rfl⟩ := Nat.exists_eq_succ_of_ne_zero (Nat.ne_zero_of_lt hfuel)
    rw [quotedChars] at hplain
    obtain ⟨r, hr, hfill⟩ := ih (Nat.le_of_succ_le_succ hfuel) hvalues hplain (hnext c hc)
    refine ⟨c :: r, ?_, ?_⟩
    · rw [Format.formatFuel, if_neg hc, hr]
      rfl
    · rw [fillMarks, hfill]
      · rfl
      · exact fun text' hc' => absurd hc' hc

/-- A conversion that starts in quotes ends in them. -/
theorem not_mem_of_spec {q : Char} (hq : q ∈ quotes) {used : List Char}
    (hused : ∀ c ∈ used, Format.isSpecChar c = true) : q ∉ used := by
  intro hmem
  have hspec := hused q hmem
  simp only [quotes, List.mem_cons, List.not_mem_nil, or_false] at hq
  rcases hq with rfl | rfl | rfl <;> revert hspec <;> decide

theorem length_nil {quote : Option Char} {fuel : ℕ} {values : List (List Char)} {r : List Char}
    (hformat : Format.formatFuel printer fuel [] values = .ok r) :
    0 ≤ values.length ∧ (values.length = 0 → ∀ r', fillMarks quote [] values = some r' →
      r.length ≤ r'.length ∧ ('%' ∈ quotedChars quote [] → r.length < r'.length)) := by
  refine ⟨Nat.zero_le _, fun hvalues r' _ => ?_⟩
  obtain rfl := List.length_eq_zero_iff.1 hvalues
  have hr : r = [] := by cases fuel <;> cases hformat <;> rfl
  simp [hr, quotedChars]

/-- Every mark takes a value, and if no other conversion takes one, the result is what the marks
are filled to, without a character for every conversion in quotes. -/
theorem length_formatFuel_marked {quote : Option Char} {text : List Char} {n fuel : ℕ}
    {values : List (List Char)} {r : List Char} (h : Marked quote text n)
    (hquote : ∀ q ∈ quote, q ∈ quotes)
    (hformat : Format.formatFuel printer fuel text values = .ok r) :
    n ≤ values.length ∧ (values.length = n → ∀ r', fillMarks quote text values = some r' →
      r.length ≤ r'.length ∧ ('%' ∈ quotedChars quote text → r.length < r'.length)) := by
  induction fuel generalizing quote text n values r with
  | zero =>
    cases h with
    | nil quote => exact length_nil hformat
    | _ => cases hformat
  | succ fuel ih =>
    cases h with
    | nil quote => exact length_nil hformat
    | @inside q c text n h =>
      have hq := hquote q rfl
      rw [Format.formatFuel] at hformat
      split at hformat
      · next hc =>
        have hne : '%' ≠ q := fun heq => absurd (heq ▸ hq) (by decide)
        obtain ⟨⟨spec, rest⟩, hspec, hturn⟩ := bind_eq_ok.1 hformat
        obtain ⟨used, rfl, hused⟩ := Format.parseSpec_eq_ok hspec
        have hskip := not_mem_of_spec hq hused
        rw [hc, if_neg hne] at h
        dsimp only at hturn
        split at hturn
        · next htype =>
          obtain ⟨r, hr, hturn⟩ := bind_eq_ok.1 hturn
          cases hturn
          have hrest := (h.skip hskip).tail (htype ▸ hne)
          obtain ⟨hle, hlength⟩ := ih hrest hquote hr
          refine ⟨hle, fun hvalues r' hfill => ?_⟩
          rw [fillMarks, hc, if_neg hne, fillMarks_skip hskip, fillMarks, htype, if_neg hne,
            Option.map_map, Option.map_map] at hfill
          obtain ⟨r₀, hr₀, rfl⟩ := Option.map_eq_some_iff.1 hfill
          have hlength := (hlength hvalues r₀ hr₀).1
          simp only [Function.comp_def, List.length_cons, List.length_append]
          omega
        · cases values with
          | nil => cases hturn
          | cons value values =>
            obtain ⟨s, hs, hturn⟩ := bind_eq_ok.1 hturn
            obtain ⟨r, hr, hturn⟩ := bind_eq_ok.1 hturn
            have htype : spec.type ≠ q := by
              rintro rfl
              have hmem := Format.Spec.type_of_convert hs
              simp only [quotes, List.mem_cons, List.not_mem_nil, or_false] at hq
              rcases hq with hq | hq | hq <;> (rw [hq] at hmem; revert hmem; decide)
            have hle := (ih ((h.skip hskip).tail htype) hquote hr).1
            rw [List.length_cons]
            exact ⟨Nat.le_succ_of_le hle, fun hvalues => by omega⟩
      · next hc =>
        obtain ⟨r, hr, hturn⟩ := bind_eq_ok.1 hformat
        cases hturn
        have hnext : ∀ q' ∈ (if c = q then none else some q : Option Char), q' ∈ quotes := by
          intro q' hq'
          split at hq'
          · cases hq'
          · exact hquote q' hq'
        obtain ⟨hle, hlength⟩ := ih h hnext hr
        refine ⟨hle, fun hvalues r' hfill => ?_⟩
        rw [fillMarks] at hfill
        obtain ⟨r₀, hr₀, rfl⟩ := Option.map_eq_some_iff.1 hfill
        obtain ⟨hshort, hshorter⟩ := hlength hvalues r₀ hr₀
        refine ⟨Nat.succ_le_succ hshort, fun hmem => Nat.succ_lt_succ (hshorter ?_)⟩
        rw [quotedChars] at hmem
        split at hmem
        · next heq => rwa [if_pos heq]
        · next hne =>
          rw [if_neg hne]
          exact (List.mem_cons.1 hmem).resolve_left (Ne.symm hc)
    | @mark text n h =>
      rw [Format.formatFuel, if_pos rfl, Format.parseSpec_s] at hformat
      cases values with
      | nil => cases hformat
      | cons value values =>
        change (do
          let s ← Format.Spec.convert ⟨false, 0, none, 's'⟩ printer value
          let r ← Format.formatFuel printer fuel text values
          return s ++ r) = _ at hformat
        rw [Format.Spec.convert_plain] at hformat
        obtain ⟨_, ⟨⟩, hformat⟩ := bind_eq_ok.1 hformat
        obtain ⟨r, hr, hturn⟩ := bind_eq_ok.1 hformat
        cases hturn
        obtain ⟨hle, hlength⟩ := ih h hquote hr
        refine ⟨Nat.succ_le_succ hle, fun hvalues r' hfill => ?_⟩
        rw [fillMarks] at hfill
        obtain ⟨r₀, hr₀, rfl⟩ := Option.map_eq_some_iff.1 hfill
        obtain ⟨hshort, hshorter⟩ := hlength (Nat.succ.inj hvalues) r₀ hr₀
        rw [List.length_append, List.length_append]
        refine ⟨Nat.add_le_add_left hshort _, fun hmem => Nat.add_lt_add_left (hshorter ?_) _⟩
        simpa [quotedChars, quotes] using hmem
    | @outside c text n hc h =>
      rw [Format.formatFuel, if_neg hc] at hformat
      obtain ⟨r, hr, hturn⟩ := bind_eq_ok.1 hformat
      cases hturn
      have hnext : ∀ q ∈ (if c ∈ quotes then some c else none : Option Char), q ∈ quotes := by
        intro q hq
        split at hq
        · next hmem => rwa [← Option.some.inj hq]
        · cases hq
      obtain ⟨hle, hlength⟩ := ih h hnext hr
      refine ⟨hle, fun hvalues r' hfill => ?_⟩
      rw [fillMarks] at hfill
      · obtain ⟨r₀, hr₀, rfl⟩ := Option.map_eq_some_iff.1 hfill
        obtain ⟨hshort, hshorter⟩ := hlength hvalues r₀ hr₀
        rw [quotedChars]
        exact ⟨Nat.succ_le_succ hshort, fun hmem => Nat.succ_lt_succ (hshorter hmem)⟩
      · exact fun text' hc' => absurd hc' hc

/-- The operator fills the marks, one value for each, just when no `%` is in quotes. -/
theorem format_fills_iff {text : List Char} {values : List (List Char)}
    (h : Marked none text values.length) :
    (∃ r, Format.format printer text values = .ok r ∧ fillMarks none text values = some r) ↔
      '%' ∉ quotedChars none text := by
  constructor
  · rintro ⟨r, hformat, hfill⟩ hmem
    exact Nat.lt_irrefl _ (((length_formatFuel_marked h (by simp) hformat).2 rfl r hfill).2 hmem)
  · exact fun hplain => formatFuel_marked h le_rfl rfl hplain (by simp)

end

/-! ### The texts that are sent -/

/-- A statement lowered for MySQL has a mark for every parameter. -/
theorem marked_of_lower {q : BoundAltrQueryIR} {r : PhysicalQueryResult} (hkeys : PlainKeys q)
    (h : SqlSource.mysql.lowerer.lower q = .ok r) :
    ∀ p ∈ r.queries, Marked none p.query.toList p.parameters.length := by
  intro p hp
  obtain ⟨places, -, m, hrun, hwrites, hnames⟩ := forall₂_mem_right (SqlSource.queries_of_lower h) hp
  simp only [SqlLowerer.physicalQuery, bind_eq_ok, pure_eq_ok] at hrun
  obtain ⟨⟨statement, parameters⟩, hrun, rfl⟩ := hrun
  have hindices := SqlSource.indices_of_run hwrites hrun
  have hspelled := spells_statementText
    (hnames hkeys (fun _ _ hpostgresql => absurd hpostgresql (by decide)) [] statement parameters hrun)
  have hmarked := Marked.of_spells hspelled (.nil none)
  rwa [List.append_nil, hindices, List.length_range', Nat.add_zero] at hmarked

/-- A native statement without parameters reaches its server as it is, unless it has a `%` and the
server is MySQL's. A lowered statement reaches MySQL with its marks filled, just when no `%` is in
its quotes. -/
theorem sentText_faithful_iff (printer : Format.Printer) (literal : Scalar → List Char) :
    (∀ src query statement, validateQuery query = .ok statement →
      (sentText printer literal src statement [] = .ok statement.toList ↔
        (src = .mysql → '%' ∉ statement.toList))) ∧
    ∀ q r, PlainKeys q → SqlSource.mysql.lowerer.lower q = .ok r → ∀ p ∈ r.queries,
      ((∃ text, sentText printer literal .mysql p.query p.parameters = .ok text ∧
        fillMarks none p.query.toList (p.parameters.map literal) = some text) ↔
        '%' ∉ quotedChars none p.query.toList) := by
  constructor
  · intro src query statement _
    cases src with
    | mysql => exact Format.format_nil_iff.trans ⟨fun h _ => h, fun h => h rfl⟩
    | postgresql | sqlite => exact iff_of_true rfl (by rintro ⟨⟩)
  · intro q r hkeys h p hp
    have hmarked := marked_of_lower hkeys h p hp
    rw [← List.length_map (f := literal)] at hmarked
    exact format_fills_iff hmarked

/-- The pattern of a LIKE is read as a conversion. -/
theorem not_sentText_pattern :
    validateQuery "SELECT id FROM t WHERE name LIKE 'a%'" =
      .ok "SELECT id FROM t WHERE name LIKE 'a%'" ∧
    sentText ⟨id, id⟩ (fun _ => []) .mysql "SELECT id FROM t WHERE name LIKE 'a%'" [] ≠
      .ok "SELECT id FROM t WHERE name LIKE 'a%'".toList := by
  constructor <;> decide

open TestSchema in
/-- SQLite receives the pattern, and MySQL the value of a parameter. -/
theorem sentText_faithful_age :
    sentText ⟨id, id⟩ (fun _ => ['1', '8']) .sqlite "SELECT id FROM t WHERE name LIKE 'a%'" [] =
      .ok "SELECT id FROM t WHERE name LIKE 'a%'".toList ∧
    let q := query .delete (.atom ⟨age, .comparison .gte, .literal (.integer 18)⟩)
    ∃ r, SqlSource.mysql.lowerer.lower q = .ok r ∧ ∀ p ∈ r.queries, ∃ text,
      sentText ⟨id, id⟩ (fun _ => ['1', '8']) .mysql p.query p.parameters = .ok text ∧
        fillMarks none p.query.toList (p.parameters.map fun _ => ['1', '8']) = some text := by
  obtain ⟨hnative, hlowered⟩ := sentText_faithful_iff ⟨id, id⟩ fun _ => ['1', '8']
  constructor
  · refine (hnative .sqlite "SELECT id FROM t WHERE name LIKE 'a%'" _ ?_).2 (by rintro ⟨⟩)
    decide
  · intro q
    have hkeys : PlainKeys q := by unfold PlainKeys; decide
    refine ⟨_, rfl, fun p hp => (hlowered q _ hkeys rfl p hp).2 ?_⟩
    rw [List.mem_singleton.1 hp]
    decide

end AltrStream.Connectors
