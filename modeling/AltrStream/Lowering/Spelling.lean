import AltrStream.Lowering.Reading

/-! # The text of a condition is that of its tokens

`render` writes the tokens of a condition one after the other, with a blank
between two of them unless one is a parenthesis or a comma that stands close.
-/
namespace AltrStream.Lowering
open Foundations Python QueryEngine Semantics

/-- Conditions in which nothing is missing: no empty text, no empty list. -/
def Condition.Filled : Condition → Prop
  | blank => False
  | isIn _ xs | notIn _ xs => xs ≠ []
  | and l r | or l r => l.Filled ∧ r.Filled
  | not e | group e => e.Filled
  | _ => True

section
variable (d : SqlDialect)
open SqlToken

/-- A text of tokens that a blank separates from what stands before and behind it. -/
structure Phrase (ts : List SqlToken) (s : String) : Prop where
  text : spell d ts = s
  head : ∃ t us, ts = t :: us ∧ t ∉ [closing, comma, semicolon]
  last : ∃ us t, ts = us ++ [t] ∧ t ≠ opening

theorem spell_append_cons (ts us : List SqlToken) (t u : SqlToken) :
    spell d (ts ++ t :: u :: us) = spell d (ts ++ [t]) ++ blank t u ++ spell d (u :: us) := by
  induction ts with
  | nil => rfl
  | cons a ts ih =>
    cases ts with
    | nil => simp only [List.cons_append, List.nil_append, spell, String.append_assoc]
    | cons b ts =>
      simp only [List.cons_append] at ih ⊢
      rw [spell, spell, ih]
      simp only [String.append_assoc]

variable {d}

theorem blank_of_not_glued {t u : SqlToken} (ht : t ≠ opening) (hu : u ∉ [closing, comma, semicolon]) :
    blank t u = " " := by
  simp only [List.mem_cons, List.not_mem_nil, or_false, not_or] at hu
  have hglued : glued t u = false := by
    unfold glued
    split <;> simp_all
  rw [blank, hglued]
  rfl

namespace Phrase

variable {ts us : List SqlToken} {s s' : String}

theorem token (t : SqlToken) (hhead : t ∉ [closing, comma, semicolon]) (hlast : t ≠ opening) :
    Phrase d [t] (t.text d) where
  text := rfl
  head := ⟨t, [], rfl, hhead⟩
  last := ⟨[], t, rfl, hlast⟩

theorem word (w : SqlWord) : Phrase d [.word w] w.text := token (.word w) (by simp) (by simp)

theorem column (c : BoundFieldPath) : Phrase d [.column c] (d.lowerFieldPath c) :=
  token (.column c) (by simp) (by simp)

theorem operand (x : SqlOperand) : Phrase d [ofOperand x] (d.operandText x) := by
  cases x with
  | null => exact word .null
  | param i => exact token (.operand (.param i)) (by simp) (by simp)
  | current k => exact token (.operand (.current k)) (by simp) (by simp)

/-- Two phrases with a blank between them. -/
theorem append (h : Phrase d ts s) (h' : Phrase d us s') :
    Phrase d (ts ++ us) (s ++ (" " ++ s')) := by
  obtain ⟨rfl, ⟨t, ts', hts, ht⟩, ts'', t', hts', ht'⟩ := h
  obtain ⟨rfl, ⟨u, us', rfl, hu⟩, us'', u', hus', hu'⟩ := h'
  refine ⟨?_, ⟨t, ts' ++ u :: us', by rw [hts]; rfl, ht⟩, ts ++ us'', u', ?_, hu'⟩
  · rw [hts', List.append_assoc, List.singleton_append, spell_append_cons, blank_of_not_glued ht' hu,
      String.append_assoc]
  · rw [hus', List.append_assoc]

/-- A phrase in parentheses. -/
theorem group (h : Phrase d ts s) :
    Phrase d (opening :: (ts ++ [closing])) ("(" ++ (s ++ ")")) := by
  obtain ⟨rfl, ⟨t, ts', hts, -⟩, ts'', t', hts', -⟩ := h
  refine ⟨?_, ⟨_, _, rfl, by simp⟩, opening :: ts, closing, rfl, by simp⟩
  have hclose : spell d (ts ++ [closing]) = spell d ts ++ ")" := by
    rw [hts', List.append_assoc, List.singleton_append, spell_append_cons]
    have hglued : blank t' closing = "" := by
      have : glued t' closing = true := by cases t' <;> rfl
      rw [blank, this]
      rfl
    rw [hglued, String.append_empty]
    rfl
  rw [← hclose, hts, List.cons_append, spell]
  rfl

theorem regroup (h : Phrase d ts s) (heq : s.toList = s'.toList) : Phrase d ts s' :=
  String.toList_inj.1 heq ▸ h

/-- Phrases with commas between them. -/
theorem list {α : Type} {tokens : α → List SqlToken} {text : α → String} {l : List α} (hne : l ≠ [])
    (h : ∀ a ∈ l, Phrase d (tokens a) (text a)) :
    Phrase d ([comma].intercalate (l.map tokens)) (", ".intercalate (l.map text)) := by
  induction l with
  | nil => exact absurd rfl hne
  | cons a l ih =>
    obtain ⟨ha, hl⟩ := List.forall_mem_cons.1 h
    cases l with
    | nil => simpa using ha
    | cons b l =>
      have hrest := ih (List.cons_ne_nil _ _) hl
      rw [List.map_cons, List.map_cons] at hrest ⊢
      rw [List.map_cons, List.map_cons, List.intercalate_cons_cons, String.intercalate_cons_cons]
      obtain ⟨hta, ⟨t, ts', hts, ht⟩, ts'', t', hts', ht'⟩ := ha
      obtain ⟨htr, ⟨u, us', hus, hu⟩, us'', u', hus', hu'⟩ := hrest
      refine ⟨?_, ⟨t, _, by rw [hts]; rfl, ht⟩, _, u', by
        rw [hus', ← List.append_assoc], hu'⟩
      have hblank : blank comma u = " " := blank_of_not_glued (by simp) hu
      have hglued : blank t' comma = "" := by
        have : glued t' comma = true := by cases t' <;> rfl
        rw [blank, this]
        rfl
      rw [← hta, ← htr, hus, hts', List.append_assoc, List.append_assoc, List.singleton_append,
        List.singleton_append, spell_append_cons, spell, hblank, hglued, String.append_empty]
      exact (String.append_assoc ..).symm

theorem operands {xs : List SqlOperand} (h : xs ≠ []) :
    Phrase d (SqlToken.operands xs) (d.listText xs) := by
  have htokens : ∀ xs : List SqlOperand,
      SqlToken.operands xs = [comma].intercalate (xs.map fun x => [ofOperand x]) := by
    intro xs
    induction xs with
    | nil => rfl
    | cons x xs ih =>
      cases xs with
      | nil => rfl
      | cons y ys =>
        rw [SqlToken.operands, ih, List.map_cons, List.map_cons, List.map_cons,
          List.intercalate_cons_cons]
        · rfl
        · exact List.cons_ne_nil _ _
  rw [htokens]
  exact list h fun x _ => operand x

end Phrase

/-- The text of a condition is that of its tokens. -/
theorem Condition.Filled.phrase {c : Condition} (h : c.Filled) : Phrase d c.tokens (d.render c) := by
  have hword := @Phrase.word d
  have hcolumn := @Phrase.column d
  have hoperand := @Phrase.operand d
  have hescape := (hword .escape).append (Phrase.token .escapeLiteral (by simp) (by simp))
  induction c with
  | constant => exact Phrase.token .tautology (by simp) (by simp)
  | blank => exact h.elim
  | isNull c =>
    exact ((hcolumn c).append ((hword .is).append (hword .null))).regroup
      (by simp [SqlDialect.render, toString, SqlWord.text])
  | isNotNull c =>
    exact ((hcolumn c).append ((hword .is).append ((hword .not).append (hword .null)))).regroup
      (by simp [SqlDialect.render, toString, SqlWord.text])
  | compare c op x =>
    have hsign : Phrase d [sign op] op.value := Phrase.token (.sign op) (by simp) (by simp)
    exact ((hcolumn c).append (hsign.append (hoperand x))).regroup
      (by simp [SqlDialect.render, toString])
  | between c lo hi =>
    have hbounds := (hoperand lo).append ((hword .and).append (hoperand hi))
    exact ((hcolumn c).append ((hword .between).append hbounds)).regroup
      (by simp [SqlDialect.render, toString, SqlWord.text])
  | notBetween c lo hi =>
    have hbounds := (hoperand lo).append ((hword .and).append (hoperand hi))
    exact ((hcolumn c).append ((hword .not).append ((hword .between).append hbounds))).regroup
      (by simp [SqlDialect.render, toString, SqlWord.text])
  | isIn c xs =>
    exact ((hcolumn c).append ((hword .inList).append (Phrase.operands h).group)).regroup
      (by simp [SqlDialect.render, toString, SqlWord.text])
  | notIn c xs =>
    have hlist := (hword .inList).append (Phrase.operands h).group
    exact ((hcolumn c).append ((hword .not).append hlist)).regroup
      (by simp [SqlDialect.render, toString, SqlWord.text])
  | like c p =>
    exact ((hcolumn c).append ((hword .like).append ((hoperand p).append hescape))).regroup
      (by simp [SqlDialect.render, toString, SqlWord.text, SqlToken.text])
  | notLike c p =>
    have hlike := (hword .like).append ((hoperand p).append hescape)
    exact ((hcolumn c).append ((hword .not).append hlike)).regroup
      (by simp [SqlDialect.render, toString, SqlWord.text, SqlToken.text])
  | and l r ihl ihr =>
    exact ((ihl h.1).append ((hword .and).append (ihr h.2))).regroup
      (by simp [SqlDialect.render, toString, SqlWord.text])
  | or l r ihl ihr =>
    exact ((ihl h.1).append ((hword .or).append (ihr h.2))).regroup
      (by simp [SqlDialect.render, toString, SqlWord.text])
  | not e ih =>
    exact ((hword .not).append (ih h)).regroup
      (by simp [SqlDialect.render, toString, SqlWord.text])
  | group e ih => exact (ih h).group.regroup (by simp [SqlDialect.render, toString])

end

/-! ### Whole conditions -/

namespace Condition

theorem filled_joinAnd {cs : List Condition} (hne : cs ≠ []) (h : ∀ c ∈ cs, c.Filled) :
    (joinAnd cs).Filled := by
  have hfold : ∀ c : Condition, c.Filled → (∀ c' ∈ cs.tail, c'.Filled) →
      (cs.tail.foldl .and c).Filled := by
    induction cs.tail with
    | nil => exact fun _ hc _ => hc
    | cons c' cs ih =>
      intro c hc hcs
      obtain ⟨hc', hcs⟩ := List.forall_mem_cons.1 hcs
      exact ih (.and c c') ⟨hc, hc'⟩ hcs
  cases cs with
  | nil => exact absurd rfl hne
  | cons c cs =>
    obtain ⟨hc, hcs⟩ := List.forall_mem_cons.1 h
    exact hfold c hc hcs

theorem filled_joinOr {cs : List Condition} (hne : cs ≠ []) (h : ∀ c ∈ cs, c.Filled) :
    (joinOr cs).Filled := by
  have hfold : ∀ c : Condition, c.Filled → (∀ c' ∈ cs.tail, c'.Filled) →
      (cs.tail.foldl .or c).Filled := by
    induction cs.tail with
    | nil => exact fun _ hc _ => hc
    | cons c' cs ih =>
      intro c hc hcs
      obtain ⟨hc', hcs⟩ := List.forall_mem_cons.1 hcs
      exact ih (.or c c') ⟨hc, hc'⟩ hcs
  cases cs with
  | nil => exact absurd rfl hne
  | cons c cs =>
    obtain ⟨hc, hcs⟩ := List.forall_mem_cons.1 h
    exact hfold c hc hcs

theorem Whole.filled {c : Condition} (h : c.Whole) : c.Filled := by
  induction h with
  | @predicate c h => cases c <;> first | exact h | exact h.elim
  | not _ ih => exact ih
  | group css hne hne' _ ih =>
    exact filled_joinOr (by simpa using hne) (List.forall_mem_map.2 fun cs hcs =>
      filled_joinAnd (hne' cs hcs) (ih cs hcs))

end Condition

end AltrStream.Lowering
