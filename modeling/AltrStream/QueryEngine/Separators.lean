import AltrStream.Foundations.Joints
import AltrStream.QueryEngine.Parser

/-! # Separators of conditions

The texts of WHERE blocks: conditions joined by OR, by AND, by a comma or by a
newline alone, which is no token. A newline separates conditions of the block
itself, more loosely than OR, and is a syntax error in a group.
-/
namespace AltrStream.QueryEngine
open Foundations Python

/-- A token of the type, wherever it stands. -/
abbrev Tok (type : TokenType) := { t : Token // t.type = type }

/-- The tokens that may stand after a condition. -/
def TokenType.FollowsCondition : TokenType → Prop
  | .and | .or | .not | .comma | .lbrace | .rbrace | .identifier _ => True
  | _ => False

/-- The tokens that a condition may start with. -/
def TokenType.StartsCondition : TokenType → Prop
  | .not | .lbrace | .identifier _ => True
  | _ => False

section
variable (u : Unicode)

/-- The text of a field expression: the parser reads it, whatever comes after it. -/
structure Atom where
  tokens : List Token
  expr : FieldExpression
  starts : ∃ name t ts, tokens = t :: ts ∧ t.type = .identifier name
  reads : ∀ t ts last, t.type.FollowsCondition →
    (parseAtomicFieldExpression u).run ⟨tokens ++ t :: ts, last⟩ = .ok (.atom expr, ⟨t :: ts, last⟩)

inductive Connector
  | or (t : Tok .or)
  | and (t : Tok .and)
  | comma (t : Tok .comma)
  | newline

inductive ConditionText
  | atom (a : Atom u)
  | not (t : Tok .not) (operand : ConditionText)
  | group (l : Tok .lbrace) (first : ConditionText) (rest : List (Connector × ConditionText))
      (r : Tok .rbrace)

/-- What stands in a WHERE block. -/
structure BlockText where
  first : ConditionText u
  rest : List (Connector × ConditionText u)

end

namespace Connector

def tokens : Connector → List Token
  | or t => [t.1]
  | and t => [t.1]
  | comma t => [t.1]
  | newline => []

def joint : Connector → Joint
  | or _ => .or
  | and _ | comma _ => .tight
  | newline => .loose

/-- One separator in place of another. -/
def Varies (k k' : Connector) : Prop := k = k' ∨ k.joint ≠ .or ∧ k'.joint ≠ .or

end Connector

/-- The disjunction so far and the alternative that ends. -/
def closeOr : Option Expression → Expression → Expression
  | none, e => e
  | some o, e => .or o e

variable {u : Unicode}

namespace ConditionText

def tokens : ConditionText u → List Token
  | atom a => a.tokens
  | not t operand => t.1 :: operand.tokens
  | group l first rest r => l.1 :: (first.tokens ++ go rest ++ [r.1])
where
  go : List (Connector × ConditionText u) → List Token
    | [] => []
    | (k, i) :: l => k.tokens ++ i.tokens ++ go l

/-- The tree that the grammar gives a condition; a newline in a group gives none. -/
def tree? : ConditionText u → Option Expression
  | atom a => some (.atom a.expr)
  | not _ operand => operand.tree?.map .not
  | group _ first rest _ => first.tree?.bind fun e => go none e rest
where
  go (o : Option Expression) (e : Expression) : List (Connector × ConditionText u) → Option Expression
    | [] => some (closeOr o e)
    | (.or _, i) :: l => i.tree?.bind fun e' => go (some (closeOr o e)) e' l
    | (.and _, i) :: l | (.comma _, i) :: l => i.tree?.bind fun e' => go o (.and e e') l
    | (.newline, _) :: _ => none

/-- The conditions are the same up to the separators in their groups. -/
def Varies : ConditionText u → ConditionText u → Prop
  | atom a, atom b => a = b
  | not t i, not t' j => t = t' ∧ i.Varies j
  | group l i rest r, group l' j rest' r' => l = l' ∧ r = r' ∧ i.Varies j ∧ go rest rest'
  | _, _ => False
where
  go : List (Connector × ConditionText u) → List (Connector × ConditionText u) → Prop
    | [], [] => True
    | (k, i) :: l, (k', j) :: l' => k.Varies k' ∧ i.Varies j ∧ go l l'
    | _, _ => False

/-- No group in the condition has a separator. -/
def Unseparated : ConditionText u → Prop
  | atom _ => True
  | not _ operand => operand.Unseparated
  | group _ first rest _ => first.Unseparated ∧ go rest
where
  go : List (Connector × ConditionText u) → Prop
    | [] => True
    | (k, i) :: l => k.joint = .or ∧ i.Unseparated ∧ go l

/-- Every separator in the groups is a newline. -/
def spread : ConditionText u → ConditionText u
  | atom a => atom a
  | not t operand => not t operand.spread
  | group l first rest r => group l first.spread (go rest) r
where
  go : List (Connector × ConditionText u) → List (Connector × ConditionText u)
    | [] => []
    | (k, i) :: l => (if k.joint = .or then k else .newline, i.spread) :: go l

end ConditionText

/-- The tokens of a row of conditions. -/
def rowTokens (l : List (Connector × ConditionText u)) : List Token :=
  l.flatMap fun x => x.1.tokens ++ x.2.tokens

@[simp] theorem rowTokens_nil : rowTokens ([] : List (Connector × ConditionText u)) = [] := rfl

@[simp] theorem rowTokens_cons (k : Connector) (i : ConditionText u) (l) :
    rowTokens ((k, i) :: l) = k.tokens ++ i.tokens ++ rowTokens l := rfl

theorem tokens_go (l : List (Connector × ConditionText u)) : ConditionText.tokens.go l = rowTokens l := by
  induction l with
  | nil => rfl
  | cons x l ih => rw [ConditionText.tokens.go, ih]; rfl

namespace BlockText

def tokens (c : BlockText u) : List Token := c.first.tokens ++ rowTokens c.rest

def Varies (c c' : BlockText u) : Prop :=
  c.first.Varies c'.first ∧ ConditionText.Varies.go c.rest c'.rest

/-- Every way to separate the conditions, in the block and in its groups, is accepted, and the
WHERE trees are logically equivalent. -/
def Interchangeable (c : BlockText u) : Prop :=
  ∀ c' c'', c.Varies c' → c.Varies c'' → ∀ (l : Tok .lbrace) (r : Tok .rbrace) rest last,
    ∃ e' e'', (parseWhereBlock u).run ⟨l.1 :: (c'.tokens ++ r.1 :: rest), last⟩ = .ok (e', ⟨rest, last⟩) ∧
      (parseWhereBlock u).run ⟨l.1 :: (c''.tokens ++ r.1 :: rest), last⟩ = .ok (e'', ⟨rest, last⟩) ∧
      ∀ value, e'.eval value = e''.eval value

end BlockText

/-! ### What the loops read -/

/-- The conditions that `_parse_and_expression` joins to the one before, and what is left. -/
def andRun (e : Expression) :
    List (Connector × ConditionText u) → Option (Expression × List (Connector × ConditionText u))
  | [] => some (e, [])
  | (k, i) :: l =>
    if k.joint = .tight then i.tree?.bind fun e' => andRun (.and e e') l else some (e, (k, i) :: l)

/-- What `_parse_or_expression` reads, up to a newline. -/
def orRun (o : Option Expression) (e : Expression) :
    List (Connector × ConditionText u) → Option (Expression × List (Connector × ConditionText u))
  | [] => some (closeOr o e, [])
  | (k, i) :: l =>
    match k.joint with
    | .or => i.tree?.bind fun e' => orRun (some (closeOr o e)) e' l
    | .tight => i.tree?.bind fun e' => orRun o (.and e e') l
    | .loose => some (closeOr o e, (k, i) :: l)

/-- The expressions of the block. -/
def blockRun (o : Option Expression) (e : Expression) :
    List (Connector × ConditionText u) → Option (Expression × List Expression)
  | [] => some (closeOr o e, [])
  | (k, i) :: l =>
    match k.joint with
    | .or => i.tree?.bind fun e' => blockRun (some (closeOr o e)) e' l
    | .tight => i.tree?.bind fun e' => blockRun o (.and e e') l
    | .loose => i.tree?.bind fun e' => (blockRun none e' l).map fun b => (closeOr o e, b.1 :: b.2)

theorem orRun_eq_bind (o : Option Expression) (e : Expression) (l : List (Connector × ConditionText u)) :
    orRun o e l = (andRun e l).bind fun x => orRun o x.1 x.2 := by
  induction l generalizing e with
  | nil => rfl
  | cons x l ih =>
    obtain ⟨k, i⟩ := x
    by_cases hk : k.joint = .tight
    · simp only [orRun, andRun, hk, if_true, Option.bind_assoc]
      exact congrArg _ (funext fun e' => ih _)
    · simp only [andRun, hk, if_false]
      rfl

theorem tree_go (o : Option Expression) (e : Expression) (l : List (Connector × ConditionText u)) :
    ConditionText.tree?.go o e l =
      (orRun o e l).bind fun x => if x.2 = [] then some x.1 else none := by
  induction l generalizing o e with
  | nil => rfl
  | cons x l ih =>
    obtain ⟨k, i⟩ := x
    cases k with
    | or t =>
      simp only [ConditionText.tree?.go, orRun, Connector.joint, Option.bind_assoc]
      exact congrArg _ (funext fun e' => ih _ _)
    | and t | comma t =>
      simp only [ConditionText.tree?.go, orRun, Connector.joint, Option.bind_assoc]
      exact congrArg _ (funext fun e' => ih _ _)
    | newline => simp [ConditionText.tree?.go, orRun, Connector.joint]

theorem blockRun_eq_bind (o : Option Expression) (e : Expression)
    (l : List (Connector × ConditionText u)) :
    blockRun o e l = (orRun o e l).bind fun x =>
      match x.2 with
      | [] => some (x.1, [])
      | (_, i) :: l' => i.tree?.bind fun e' => (blockRun none e' l').map fun b => (x.1, b.1 :: b.2) := by
  induction l generalizing o e with
  | nil => rfl
  | cons x l ih =>
    obtain ⟨k, i⟩ := x
    cases hk : k.joint with
    | or | tight =>
      simp only [blockRun, orRun, hk, Option.bind_assoc]
      exact congrArg _ (funext fun e' => ih _ _)
    | loose =>
      simp only [blockRun, orRun, hk]
      rfl

/-! ### The parser reads so -/

theorem TokenType.StartsCondition.follows {type : TokenType} (h : type.StartsCondition) :
    type.FollowsCondition := by
  cases type <;> first | exact h | exact trivial

theorem ConditionText.starts (i : ConditionText u) :
    ∃ t ts, i.tokens = t :: ts ∧ t.type.StartsCondition := by
  cases i with
  | atom a =>
    obtain ⟨name, t, ts, htokens, ht⟩ := a.starts
    exact ⟨t, ts, htokens, by rw [ht]; trivial⟩
  | not t operand => exact ⟨t.1, _, rfl, by rw [t.2]; trivial⟩
  | group l first rest r => exact ⟨l.1, _, rfl, by rw [l.2]; trivial⟩

/-- The parser reads the condition as the grammar does. -/
def ConditionText.Readable (i : ConditionText u) : Prop :=
  ∀ fuel t ts last, i.tokens.length ≤ fuel → t.type.FollowsCondition →
    Agrees ((parseNot u fuel).run ⟨i.tokens ++ t :: ts, last⟩)
      (i.tree?.map (·, ⟨t :: ts, last⟩))

theorem follows_row (l : List (Connector × ConditionText u)) (r : Tok .rbrace) (rest : List Token) :
    ∃ t ts, rowTokens l ++ r.1 :: rest = t :: ts ∧ t.type.FollowsCondition := by
  match l with
  | [] => exact ⟨r.1, rest, rfl, by rw [r.2]; trivial⟩
  | (k, i) :: l =>
    obtain ⟨t, ts, htokens, ht⟩ := i.starts
    cases k with
    | or s | and s | comma s => exact ⟨s.1, _, rfl, by rw [s.2]; trivial⟩
    | newline =>
      refine ⟨t, ts ++ rowTokens l ++ r.1 :: rest, ?_, ht.follows⟩
      simp [rowTokens_cons, Connector.tokens, htokens]

theorem run_checkOperandFollows {t : Token} (ht : t.type.StartsCondition) (keyword : String)
    (ts : List Token) (last : Token) :
    (checkOperandFollows u keyword).run ⟨t :: ts, last⟩ = .ok ((), ⟨t :: ts, last⟩) := by
  have hne : ∀ type, ¬ type.StartsCondition → t.type ≠ type := fun type hnot heq => hnot (heq ▸ ht)
  rw [checkOperandFollows, run_bind_ok (run_check_of_ne (hne .rbrace id)),
    run_bind_ok (run_isAtEnd_of_ne (hne .eof id)), run_bind_ok (run_check_of_ne (hne .semicolon id))]
  rfl

/-- The parser goes on after a condition of a row. -/
theorem ConditionText.Readable.bind {β : Type} {i : ConditionText u} (hi : i.Readable) {fuel : ℕ}
    (hfuel : i.tokens.length ≤ fuel) {l : List (Connector × ConditionText u)} {r : Tok .rbrace}
    {rest : List Token} {last : Token} {f : Expression → ParseM β} {g : Expression → Option (β × Parser)}
    (hf : ∀ e, Agrees ((f e).run ⟨rowTokens l ++ r.1 :: rest, last⟩) (g e)) :
    Agrees ((parseNot u fuel >>= f).run ⟨i.tokens ++ (rowTokens l ++ r.1 :: rest), last⟩)
      (i.tree?.bind g) := by
  obtain ⟨t, ts, hfollow, ht⟩ := follows_row l r rest
  have hread := hi fuel t ts last hfuel ht
  rw [← hfollow] at hread
  have hbind := Agrees.bind (f := f) (g := fun e _ => g e) hread fun e p' h => by
    obtain ⟨e', -, he'⟩ := Option.map_eq_some_iff.1 h
    cases he'
    exact hf e
  cases htree : i.tree? with
  | none => simpa [htree] using hbind
  | some e => simpa [htree] using hbind

theorem andLoop_agrees {fuel : ℕ} {l : List (Connector × ConditionText u)}
    (hread : ∀ x ∈ l, x.2.Readable ∧ x.2.tokens.length ≤ fuel) {f : ℕ} (hf : l.length ≤ f)
    (e : Expression) (r : Tok .rbrace) (rest : List Token) (last : Token) :
    Agrees ((andLoop u (parseNot u fuel) f e).run ⟨rowTokens l ++ r.1 :: rest, last⟩)
      ((andRun e l).map fun x => (x.1, ⟨rowTokens x.2 ++ r.1 :: rest, last⟩)) := by
  induction l generalizing e f with
  | nil =>
    cases f with
    | zero => rfl
    | succ f =>
      rw [andLoop]
      refine Agrees.bind_ok (run_accept_of_ne (by rw [r.2]; decide)) ?_
      refine Agrees.bind_ok (run_check_of_ne (by rw [r.2]; decide)) ?_
      rfl
  | cons x l ih =>
    obtain ⟨k, i⟩ := x
    obtain ⟨⟨hi, hfuel⟩, hread⟩ := List.forall_mem_cons.1 hread
    obtain ⟨f, rfl⟩ := Nat.exists_eq_add_of_le' (Nat.le_of_add_left_le hf)
    rw [List.length_cons, Nat.add_le_add_iff_right] at hf
    obtain ⟨t, ts, hstart, ht⟩ := i.starts
    have hnext : i.tokens ++ (rowTokens l ++ r.1 :: rest) = t :: (ts ++ (rowTokens l ++ r.1 :: rest)) := by
      rw [hstart, List.cons_append]
    have hne : ∀ type, ¬ type.StartsCondition → t.type ≠ type := fun type hnot heq => hnot (heq ▸ ht)
    have hcontinue : Agrees ((parseNot u fuel >>= fun e' => andLoop u (parseNot u fuel) f (.and e e')).run
          ⟨i.tokens ++ (rowTokens l ++ r.1 :: rest), last⟩)
        ((i.tree?.bind fun e' => andRun (.and e e') l).map fun x =>
          (x.1, ⟨rowTokens x.2 ++ r.1 :: rest, last⟩)) := by
      rw [Option.map_bind]
      exact hi.bind hfuel fun e' => ih hread hf _
    rw [andLoop, rowTokens_cons, List.append_assoc, List.append_assoc]
    cases k with
    | or s =>
      rw [Connector.tokens, List.singleton_append]
      refine Agrees.bind_ok (run_accept_of_ne (by rw [s.2]; decide)) ?_
      refine Agrees.bind_ok (run_check_of_ne (by rw [s.2]; decide)) ?_
      rw [if_neg Bool.false_ne_true, andRun, if_neg (by simp [Connector.joint]), Option.map_some]
      simp only [rowTokens_cons, Connector.tokens, List.append_assoc, List.singleton_append]
      exact Agrees.pure e
    | and s =>
      rw [Connector.tokens, List.singleton_append]
      refine Agrees.bind_ok (run_accept_of_eq s.2 (by decide)) ?_
      rw [if_pos rfl, hnext]
      refine Agrees.bind_ok (run_checkOperandFollows ht "AND" _ _) ?_
      rw [← hnext]
      exact hcontinue
    | comma s =>
      rw [Connector.tokens, List.singleton_append]
      refine Agrees.bind_ok (run_accept_of_ne (by rw [s.2]; decide)) ?_
      refine Agrees.bind_ok (run_check_of_eq s.2) ?_
      rw [if_pos rfl, hnext]
      refine Agrees.bind_ok (a := ⟨s.1 :: t :: _, last⟩) rfl ?_
      dsimp only
      rw [show (Parser.mk (s.1 :: t :: (ts ++ (rowTokens l ++ r.1 :: rest))) last).peek 1 = t from rfl,
        if_neg (hne .rbrace id)]
      refine Agrees.bind_ok (run_advance (by rw [s.2]; decide)) ?_
      rw [← hnext]
      exact hcontinue
    | newline =>
      rw [Connector.tokens, List.nil_append, hnext]
      refine Agrees.bind_ok (run_accept_of_ne (hne _ id)) ?_
      refine Agrees.bind_ok (run_check_of_ne (hne _ id)) ?_
      rw [← hnext]
      rw [if_neg Bool.false_ne_true, andRun, if_neg (by simp [Connector.joint]), Option.map_some]
      simp only [rowTokens_cons, Connector.tokens, List.append_assoc, List.nil_append]
      exact Agrees.pure e

theorem length_le_rowTokens (l : List (Connector × ConditionText u)) :
    l.length ≤ (rowTokens l).length := by
  induction l with
  | nil => exact le_rfl
  | cons x l ih =>
    obtain ⟨k, i⟩ := x
    obtain ⟨t, ts, hstart, -⟩ := i.starts
    rw [rowTokens_cons, hstart]
    simp only [List.length_append, List.length_cons]
    omega

theorem parseAnd_agrees {fuel : ℕ} {i : ConditionText u} {l : List (Connector × ConditionText u)}
    (hi : i.Readable ∧ i.tokens.length ≤ fuel)
    (hread : ∀ x ∈ l, x.2.Readable ∧ x.2.tokens.length ≤ fuel)
    (r : Tok .rbrace) (rest : List Token) (last : Token) :
    Agrees ((parseAnd u (parseNot u fuel)).run ⟨i.tokens ++ (rowTokens l ++ r.1 :: rest), last⟩)
      ((i.tree?.bind fun e => andRun e l).map fun x => (x.1, ⟨rowTokens x.2 ++ r.1 :: rest, last⟩)) := by
  rw [parseAnd, Option.map_bind]
  refine hi.1.bind hi.2 fun e => Agrees.bind_ok (run_remaining _) ?_
  refine andLoop_agrees hread ?_ e r rest last
  rw [List.length_append]
  exact (length_le_rowTokens l).trans (Nat.le_add_right _ _)

/-- What `_parse_and_expression` leaves. -/
theorem andRun_eq_some {e e' : Expression} {l l' : List (Connector × ConditionText u)}
    (h : andRun e l = some (e', l')) : l' <:+ l ∧ ∀ x ∈ l'.head?, x.1.joint ≠ .tight := by
  induction l generalizing e with
  | nil =>
    cases h
    exact ⟨List.suffix_rfl, fun x hx => by cases hx⟩
  | cons x l ih =>
    obtain ⟨k, i⟩ := x
    rw [andRun] at h
    split at h
    · obtain ⟨e₁, -, h⟩ := Option.bind_eq_some_iff.1 h
      obtain ⟨hsuffix, hhead⟩ := ih h
      exact ⟨hsuffix.trans (List.suffix_cons _ _), hhead⟩
    · next hk =>
      cases h
      exact ⟨List.suffix_rfl, fun x hx => by cases hx; exact hk⟩

/-- What `_parse_or_expression` leaves starts on a new line. -/
theorem orRun_eq_some {o : Option Expression} {e e' : Expression}
    {l l' : List (Connector × ConditionText u)} (h : orRun o e l = some (e', l')) :
    l' <:+ l ∧ ∀ x ∈ l'.head?, x.1 = .newline := by
  induction l generalizing o e with
  | nil =>
    cases h
    exact ⟨List.suffix_rfl, fun x hx => by cases hx⟩
  | cons x l ih =>
    obtain ⟨k, i⟩ := x
    cases k with
    | newline =>
      cases h
      exact ⟨List.suffix_rfl, fun x hx => by cases hx; rfl⟩
    | or t | and t | comma t =>
      obtain ⟨e₁, -, h⟩ := Option.bind_eq_some_iff.1 h
      obtain ⟨hsuffix, hhead⟩ := ih h
      exact ⟨hsuffix.trans (List.suffix_cons _ _), hhead⟩

theorem orLoop_agrees {fuel g : ℕ} {l : List (Connector × ConditionText u)}
    (hread : ∀ x ∈ l, x.2.Readable ∧ x.2.tokens.length ≤ fuel) (hg : l.length ≤ g)
    (hhead : ∀ x ∈ l.head?, x.1.joint ≠ .tight) (o : Option Expression) (e : Expression)
    (r : Tok .rbrace) (rest : List Token) (last : Token) :
    Agrees ((orLoop u (parseNot u fuel) g (closeOr o e)).run ⟨rowTokens l ++ r.1 :: rest, last⟩)
      ((orRun o e l).map fun x => (x.1, ⟨rowTokens x.2 ++ r.1 :: rest, last⟩)) := by
  induction g generalizing l o e with
  | zero =>
    rw [List.length_eq_zero_iff.1 (Nat.le_zero.1 hg)]
    rfl
  | succ g ih =>
    match l with
    | [] =>
      rw [orLoop]
      exact Agrees.bind_ok (run_accept_of_ne (by rw [r.2]; decide)) rfl
    | (k, i) :: l =>
      obtain ⟨hi, htail⟩ := List.forall_mem_cons.1 hread
      rw [List.length_cons, Nat.add_le_add_iff_right] at hg
      obtain ⟨t, ts, hstart, ht⟩ := i.starts
      have hnext : i.tokens ++ (rowTokens l ++ r.1 :: rest) =
          t :: (ts ++ (rowTokens l ++ r.1 :: rest)) := by
        rw [hstart, List.cons_append]
      rw [orLoop, rowTokens_cons, List.append_assoc, List.append_assoc]
      cases k with
      | and s => exact absurd rfl (hhead _ rfl)
      | comma s => exact absurd rfl (hhead _ rfl)
      | or s =>
        rw [Connector.tokens, List.singleton_append]
        refine Agrees.bind_ok (run_accept_of_eq s.2 (by decide)) ?_
        rw [if_pos rfl, hnext]
        refine Agrees.bind_ok (run_checkOperandFollows ht "OR" _ _) ?_
        rw [← hnext]
        have hrun : orRun o e ((.or s, i) :: l) =
            (i.tree?.bind fun e' => andRun e' l).bind fun x =>
              orRun (some (closeOr o e)) x.1 x.2 := by
          rw [Option.bind_assoc]
          change (i.tree?.bind fun e' => orRun (some (closeOr o e)) e' l) = _
          exact congrArg _ (funext fun e' => orRun_eq_bind _ e' l)
        rw [hrun]
        have hand := parseAnd_agrees hi htail r rest last
        cases hx : i.tree?.bind fun e' => andRun e' l with
        | none =>
          rw [hx] at hand
          exact Agrees.bind (g := fun _ _ => none) hand fun _ _ h => nomatch h
        | some x =>
          rw [hx] at hand
          obtain ⟨e₁, -, he₁⟩ := Option.bind_eq_some_iff.1 hx
          obtain ⟨hsuffix, hhead⟩ := andRun_eq_some he₁
          exact Agrees.bind_ok hand (ih (fun y hy => htail y (hsuffix.subset hy))
            (hsuffix.length_le.trans hg) hhead (some (closeOr o e)) x.1)
      | newline =>
        have hne : t.type ≠ .or := fun heq => (heq ▸ ht : TokenType.or.StartsCondition)
        rw [Connector.tokens, List.nil_append, hnext]
        refine Agrees.bind_ok (run_accept_of_ne hne) ?_
        rw [if_neg Bool.false_ne_true, ← hnext, orRun]
        simp only [Connector.joint, Option.map_some, rowTokens_cons, Connector.tokens, List.nil_append,
          List.append_assoc]
        exact Agrees.pure _

theorem parseOr_agrees {fuel : ℕ} {i : ConditionText u} {l : List (Connector × ConditionText u)}
    (hi : i.Readable ∧ i.tokens.length ≤ fuel)
    (hread : ∀ x ∈ l, x.2.Readable ∧ x.2.tokens.length ≤ fuel)
    (r : Tok .rbrace) (rest : List Token) (last : Token) :
    Agrees ((parseOr u (parseNot u fuel)).run ⟨i.tokens ++ (rowTokens l ++ r.1 :: rest), last⟩)
      ((i.tree?.bind fun e => orRun none e l).map fun x =>
        (x.1, ⟨rowTokens x.2 ++ r.1 :: rest, last⟩)) := by
  have hrun : (i.tree?.bind fun e => orRun none e l) =
      (i.tree?.bind fun e => andRun e l).bind fun x => orRun none x.1 x.2 := by
    rw [Option.bind_assoc]
    exact congrArg _ (funext fun e => orRun_eq_bind none e l)
  rw [hrun, parseOr]
  have hand := parseAnd_agrees hi hread r rest last
  cases hx : i.tree?.bind fun e => andRun e l with
  | none =>
    rw [hx] at hand
    exact Agrees.bind (g := fun _ _ => none) hand fun _ _ h => nomatch h
  | some x =>
    rw [hx] at hand
    obtain ⟨e₁, -, he₁⟩ := Option.bind_eq_some_iff.1 hx
    obtain ⟨hsuffix, hhead⟩ := andRun_eq_some he₁
    refine Agrees.bind_ok hand (Agrees.bind_ok (run_remaining _) ?_)
    refine orLoop_agrees (fun y hy => hread y (hsuffix.subset hy)) ?_ hhead none x.1 r rest last
    rw [List.length_append]
    exact (length_le_rowTokens x.2).trans (Nat.le_add_right _ _)

theorem mem_tokens_length {k : Connector} {i : ConditionText u} {l : List (Connector × ConditionText u)}
    (h : (k, i) ∈ l) : i.tokens.length ≤ (rowTokens l).length := by
  induction l with
  | nil => cases h
  | cons x l ih =>
    obtain ⟨k', j⟩ := x
    rw [rowTokens_cons, List.length_append, List.length_append]
    rcases List.mem_cons.1 h with heq | h
    · cases heq
      omega
    · have := ih h
      omega

theorem ConditionText.readable (i : ConditionText u) : i.Readable := by
  -- by induction on the number of tokens, as the rest of a group is a list of conditions
  induction hn : i.tokens.length using Nat.strong_induction_on generalizing i with
  | _ n ih =>
    intro fuel t ts last hfuel ht
    obtain ⟨f, rfl⟩ : ∃ f, fuel = f + 1 := by
      obtain ⟨t', ts', hstart, -⟩ := i.starts
      rw [hstart, List.length_cons] at hfuel
      exact Nat.exists_eq_add_of_le' (Nat.le_of_add_left_le hfuel)
    rw [parseNot]
    cases i with
    | atom a =>
      obtain ⟨name, s, ss, hstart, hs⟩ := a.starts
      have hnext : a.tokens ++ t :: ts = s :: (ss ++ t :: ts) := by rw [hstart, List.cons_append]
      have hread := a.reads t ts last ht
      rw [hnext] at hread
      rw [ConditionText.tokens, hnext]
      refine Agrees.bind_ok (run_accept_of_ne (by rw [hs]; rintro ⟨⟩)) ?_
      rw [if_neg Bool.false_ne_true, parsePrimary]
      refine Agrees.bind_ok (run_accept_of_ne (by rw [hs]; rintro ⟨⟩)) ?_
      rw [if_neg Bool.false_ne_true]
      refine Agrees.bind_ok (a := ⟨s :: _, last⟩) rfl ?_
      have hidentifier : (Parser.mk (s :: (ss ++ t :: ts)) last).checkIdentifier = true := by
        have hpeek : ((Parser.mk (s :: (ss ++ t :: ts)) last).peek 0).type = .identifier name := hs
        rw [Parser.checkIdentifier, hpeek]
      rw [if_pos hidentifier]
      exact hread
    | not s operand =>
      rw [ConditionText.tokens, List.length_cons] at hn hfuel
      obtain ⟨t', ts', hstart, ht'⟩ := operand.starts
      have hnext : operand.tokens ++ t :: ts = t' :: (ts' ++ t :: ts) := by
        rw [hstart, List.cons_append]
      rw [ConditionText.tokens, List.cons_append]
      refine Agrees.bind_ok (run_accept_of_eq s.2 (by decide)) ?_
      rw [if_pos rfl, hnext]
      refine Agrees.bind_ok (run_checkOperandFollows ht' "NOT" _ _) ?_
      rw [← hnext]
      have hread := ih _ (by omega) operand rfl f t ts last (by omega) ht
      have hnot := Agrees.bind (f := fun e => (return Formula.not e : ParseM Expression))
        (g := fun e p => some (.not e, p)) hread fun e p' _ => Agrees.pure _
      rw [ConditionText.tree?]
      cases htree : operand.tree? <;> simpa [htree] using hnot
    | group l first rest r =>
      rw [ConditionText.tokens, tokens_go] at hn hfuel ⊢
      simp only [List.length_cons, List.length_append, List.length_nil] at hn hfuel
      have hall : ∀ x ∈ rest, x.2.Readable ∧ x.2.tokens.length ≤ f := fun x hx => by
        have hlen := mem_tokens_length (k := x.1) (i := x.2) hx
        exact ⟨ih _ (by omega) x.2 rfl, by omega⟩
      obtain ⟨t', ts', hstart, ht'⟩ := first.starts
      have htokens : l.1 :: (first.tokens ++ rowTokens rest ++ [r.1]) ++ t :: ts =
          l.1 :: (first.tokens ++ (rowTokens rest ++ r.1 :: t :: ts)) := by simp
      have hnext : first.tokens ++ (rowTokens rest ++ r.1 :: t :: ts) =
          t' :: (ts' ++ (rowTokens rest ++ r.1 :: t :: ts)) := by rw [hstart, List.cons_append]
      rw [htokens]
      refine Agrees.bind_ok (run_accept_of_ne (by rw [l.2]; rintro ⟨⟩)) ?_
      rw [if_neg Bool.false_ne_true, parsePrimary]
      refine Agrees.bind_ok (run_accept_of_eq l.2 (by decide)) ?_
      rw [if_pos rfl, hnext]
      refine Agrees.bind_ok (run_check_of_ne fun heq => (heq ▸ ht' : TokenType.rbrace.StartsCondition)) ?_
      dsimp only
      rw [if_neg Bool.false_ne_true, ← hnext]
      have hor := parseOr_agrees ⟨ih _ (by omega) first rfl, by omega⟩ hall r (t :: ts) last
      have htree : (ConditionText.group l first rest r).tree? =
          (first.tree?.bind fun e => orRun none e rest).bind fun x =>
            if x.2 = [] then some x.1 else none := by
        rw [ConditionText.tree?, Option.bind_assoc]
        exact congrArg _ (funext fun e => tree_go none e rest)
      rw [htree]
      cases hx : first.tree?.bind fun e => orRun none e rest with
      | none =>
        rw [hx] at hor
        exact Agrees.bind (g := fun _ _ => none) hor (by rintro _ _ ⟨⟩)
      | some x =>
        obtain ⟨e, left⟩ := x
        rw [hx] at hor
        refine Agrees.bind_ok hor ?_
        cases left with
        | nil => exact Agrees.bind_ok (run_consume_of_eq u r.2 (by decide) _ _) (Agrees.pure e)
        | cons x left =>
          obtain ⟨k, i⟩ := x
          -- the group goes on after a newline, where the brace is expected
          obtain ⟨e₁, -, he₁⟩ := Option.bind_eq_some_iff.1 hx
          obtain rfl : k = .newline := (orRun_eq_some he₁).2 _ rfl
          obtain ⟨s, ss, hs, hstarts⟩ := i.starts
          have hline : rowTokens ((.newline, i) :: left) ++ r.1 :: t :: ts =
              s :: (ss ++ (rowTokens left ++ r.1 :: t :: ts)) := by
            simp [rowTokens_cons, Connector.tokens, hs]
          have hbrace : s.type ≠ .rbrace := fun heq =>
            (heq ▸ hstarts : TokenType.rbrace.StartsCondition)
          obtain ⟨err, herr⟩ : ∃ err, (consume u .rbrace "Expected '\x7d' closing condition group."
              ["\x7d"]).run ⟨s :: (ss ++ (rowTokens left ++ r.1 :: t :: ts)), last⟩ = .error err :=
            run_consume_of_ne u hbrace _ _
          rw [hline]
          refine ⟨err, ?_⟩
          rw [StateT.run_bind, herr]
          rfl

theorem whereLoop_agrees {l : List (Connector × ConditionText u)} {i : ConditionText u} {f : ℕ}
    (hf : l.length < f) (r : Tok .rbrace) (rest : List Token) (last : Token) :
    Agrees ((whereLoop u f).run ⟨i.tokens ++ (rowTokens l ++ r.1 :: rest), last⟩)
      ((i.tree?.bind fun e => blockRun none e l).map fun x => (x.1 :: x.2, ⟨r.1 :: rest, last⟩)) := by
  induction f generalizing l i with
  | zero => exact absurd hf (Nat.not_lt_zero _)
  | succ f ih =>
    obtain ⟨t, ts, hstart, ht⟩ := i.starts
    have hnext : i.tokens ++ (rowTokens l ++ r.1 :: rest) = t :: (ts ++ (rowTokens l ++ r.1 :: rest)) := by
      rw [hstart, List.cons_append]
    have hne : ∀ type, ¬ type.StartsCondition → t.type ≠ type := fun type hnot heq => hnot (heq ▸ ht)
    rw [whereLoop, hnext]
    refine Agrees.bind_ok (run_check_of_ne (hne .rbrace id)) ?_
    refine Agrees.bind_ok (run_isAtEnd_of_ne (hne .eof id)) ?_
    rw [Bool.or_false, if_neg Bool.false_ne_true, ← hnext]
    have hor : Agrees ((parseOrExpression u).run ⟨i.tokens ++ (rowTokens l ++ r.1 :: rest), last⟩)
        ((i.tree?.bind fun e => orRun none e l).map fun x =>
          (x.1, ⟨rowTokens x.2 ++ r.1 :: rest, last⟩)) := by
      rw [parseOrExpression]
      refine Agrees.bind_ok (run_remaining _) (parseOr_agrees ⟨i.readable, ?_⟩ (fun x hx => ?_) r rest last)
      · simp only [List.length_append]
        omega
      · have hlen := mem_tokens_length (k := x.1) (i := x.2) hx
        simp only [List.length_append]
        exact ⟨x.2.readable, by omega⟩
    have hblock : (i.tree?.bind fun e => blockRun none e l) =
        (i.tree?.bind fun e => orRun none e l).bind fun x =>
          match x.2 with
          | [] => some (x.1, [])
          | (_, i) :: l' =>
            i.tree?.bind fun e' => (blockRun none e' l').map fun b => (x.1, b.1 :: b.2) := by
      rw [Option.bind_assoc]
      exact congrArg _ (funext fun e => blockRun_eq_bind none e l)
    rw [hblock]
    cases hx : i.tree?.bind fun e => orRun none e l with
    | none =>
      rw [hx] at hor
      exact Agrees.bind (g := fun _ _ => none) hor fun _ _ h => nomatch h
    | some x =>
      obtain ⟨e, left⟩ := x
      rw [hx] at hor
      refine Agrees.bind_ok hor ?_
      match left with
      | [] =>
        refine Agrees.bind_ok (run_accept_of_ne (by rw [r.2]; decide)) ?_
        rw [if_neg Bool.false_ne_true]
        refine Agrees.bind_ok (run_check_of_eq r.2) ?_
        exact Agrees.pure _
      | (k, j) :: left =>
        obtain ⟨e₁, -, he₁⟩ := Option.bind_eq_some_iff.1 hx
        obtain ⟨hsuffix, hhead⟩ := orRun_eq_some he₁
        obtain rfl : k = .newline := hhead _ rfl
        obtain ⟨s, ss, hs, hstarts⟩ := j.starts
        have hline : rowTokens ((.newline, j) :: left) ++ r.1 :: rest =
            s :: (ss ++ (rowTokens left ++ r.1 :: rest)) := by
          simp [rowTokens_cons, Connector.tokens, hs]
        have hsne : ∀ type, ¬ type.StartsCondition → s.type ≠ type := fun type hnot heq =>
          hnot (heq ▸ hstarts)
        have hlength := hsuffix.length_le
        rw [List.length_cons] at hlength
        rw [hline]
        refine Agrees.bind_ok (run_accept_of_ne (hsne .comma id)) ?_
        rw [if_neg Bool.false_ne_true]
        refine Agrees.bind_ok (run_check_of_ne (hsne .rbrace id)) ?_
        rw [if_neg Bool.false_ne_true, ← hline]
        have hrest := Agrees.bind (f := fun es => (return e :: es : ParseM (List Expression)))
          (g := fun es p => some (e :: es, p)) (ih (l := left) (i := j) (by omega))
          fun es p' _ => Agrees.pure _
        simpa [rowTokens_cons, Connector.tokens, Option.map_eq_bind, Option.bind_assoc] using hrest
namespace BlockText

/-- The tree that the grammar gives the block. -/
def tree? (c : BlockText u) : Option Expression :=
  (c.first.tree?.bind fun e => blockRun none e c.rest).map fun x => x.2.foldl .and x.1

theorem parseWhereBlock_agrees (c : BlockText u) (l : Tok .lbrace) (r : Tok .rbrace)
    (rest : List Token) (last : Token) :
    Agrees ((parseWhereBlock u).run ⟨l.1 :: (c.tokens ++ r.1 :: rest), last⟩)
      (c.tree?.map (·, ⟨rest, last⟩)) := by
  obtain ⟨t, ts, hstart, ht⟩ := c.first.starts
  have htokens : c.tokens ++ r.1 :: rest = c.first.tokens ++ (rowTokens c.rest ++ r.1 :: rest) := by
    rw [tokens, List.append_assoc]
  have hnext : c.first.tokens ++ (rowTokens c.rest ++ r.1 :: rest) =
      t :: (ts ++ (rowTokens c.rest ++ r.1 :: rest)) := by
    rw [hstart, List.cons_append]
  rw [parseWhereBlock, htokens]
  refine Agrees.bind_ok (run_consume_of_eq u l.2 (by decide) _ _) ?_
  rw [hnext]
  refine Agrees.bind_ok (run_check_of_ne fun heq => (heq ▸ ht : TokenType.rbrace.StartsCondition)) ?_
  dsimp only
  rw [if_neg Bool.false_ne_true]
  refine Agrees.bind_ok (run_remaining _) ?_
  rw [← hnext]
  have hloop := whereLoop_agrees (l := c.rest) (i := c.first)
    (f := (c.first.tokens ++ (rowTokens c.rest ++ r.1 :: rest)).length)
    (by
      have hlen := length_le_rowTokens c.rest
      simp only [List.length_append, List.length_cons]
      omega) r rest last
  rw [tree?]
  cases hx : c.first.tree?.bind fun e => blockRun none e c.rest with
  | none =>
    rw [hx] at hloop
    exact Agrees.bind (g := fun _ _ => none) hloop fun _ _ h => nomatch h
  | some x =>
    rw [hx] at hloop
    refine Agrees.bind_ok hloop ?_
    exact Agrees.bind_ok (run_consume_of_eq u r.2 (by decide) _ _) (Agrees.pure _)

end BlockText

/-! ### What the trees mean -/

namespace ConditionText

/-- Induction over the conditions in a condition. -/
theorem induct {motive : ConditionText u → Prop} (atom : ∀ a, motive (.atom a))
    (not : ∀ t operand, motive operand → motive (.not t operand))
    (group : ∀ l first rest r, motive first → (∀ x ∈ rest, motive x.2) →
      motive (.group l first rest r)) (i : ConditionText u) : motive i := by
  induction hn : i.tokens.length using Nat.strong_induction_on generalizing i with
  | _ n ih =>
    cases i with
    | atom a => exact atom a
    | not t operand => exact not t operand (ih _ (by simp [← hn, tokens]) operand rfl)
    | group l first rest r =>
      rw [tokens, tokens_go] at hn
      simp only [List.length_cons, List.length_append] at hn
      refine group l first rest r (ih _ (by omega) first rfl) fun x hx => ih _ ?_ x.2 rfl
      have hlen := mem_tokens_length (k := x.1) (i := x.2) hx
      omega

/-- Whether the condition holds, given the field expressions that do. -/
def value (v : FieldExpression → Bool) : ConditionText u → Bool
  | atom a => v a.expr
  | not _ operand => !operand.value v
  | group _ first rest _ => go false (first.value v) rest
where
  go (some_ run : Bool) : List (Connector × ConditionText u) → Bool
    | [] => some_ || run
    | (k, i) :: l =>
      match k.joint with
      | .or => go (some_ || run) (i.value v) l
      | .tight => go some_ (run && i.value v) l
      | .loose => (some_ || run) && go false (i.value v) l

end ConditionText

/-- The conditions of a row and how they are joined. -/
def joints (l : List (Connector × ConditionText u)) : List (Joint × ConditionText u) :=
  l.map fun x => (x.1.joint, x.2)

theorem value_go (v : FieldExpression → Bool) (s r : Bool) (l : List (Connector × ConditionText u)) :
    ConditionText.value.go v s r l = Joint.holds (ConditionText.value v) s r (joints l) := by
  induction l generalizing s r with
  | nil => rfl
  | cons x l ih =>
    obtain ⟨k, i⟩ := x
    rw [ConditionText.value.go, joints, List.map_cons, ← joints]
    cases k.joint with
    | or => exact ih _ _
    | tight => exact ih _ _
    | loose => exact congrArg ((s || r) && ·) (ih _ _)

/-- The trees of the conditions mean what the conditions do. -/
def TreesMean (v : FieldExpression → Bool) (l : List (Connector × ConditionText u)) : Prop :=
  ∀ x ∈ l, ∀ e, x.2.tree? = some e → e.eval v = x.2.value v

theorem eval_closeOr (v : FieldExpression → Bool) (o : Option Expression) (e : Expression) :
    (closeOr o e).eval v = (o.any (·.eval v) || e.eval v) := by
  cases o <;> rfl

theorem eval_foldl_and (v : FieldExpression → Bool) (e : Expression) (es : List Expression) :
    (es.foldl .and e).eval v = (e.eval v && es.all (·.eval v)) := by
  induction es generalizing e with
  | nil => simp
  | cons e' es ih => simp [ih, Formula.eval, Bool.and_assoc]

theorem eval_blockRun {v : FieldExpression → Bool} {l : List (Connector × ConditionText u)}
    (hmean : TreesMean v l) {o : Option Expression} {e : Expression} {b : Expression × List Expression}
    (h : blockRun o e l = some b) :
    (b.1.eval v && b.2.all (·.eval v)) =
      Joint.holds (ConditionText.value v) (o.any (·.eval v)) (e.eval v) (joints l) := by
  induction l generalizing o e b with
  | nil =>
    cases h
    simp [eval_closeOr, joints, Joint.holds]
  | cons x l ih =>
    obtain ⟨k, i⟩ := x
    obtain ⟨hi, hl⟩ := List.forall_mem_cons.1 hmean
    rw [joints, List.map_cons, ← joints]
    cases hk : k.joint with
    | or =>
      simp only [blockRun, hk] at h
      obtain ⟨e₁, he₁, h⟩ := Option.bind_eq_some_iff.1 h
      rw [ih hl h, Joint.holds, hi e₁ he₁]
      simp [eval_closeOr]
    | tight =>
      simp only [blockRun, hk] at h
      obtain ⟨e₁, he₁, h⟩ := Option.bind_eq_some_iff.1 h
      rw [ih hl h, Joint.holds, ← hi e₁ he₁]
      rfl
    | loose =>
      simp only [blockRun, hk] at h
      obtain ⟨e₁, he₁, h⟩ := Option.bind_eq_some_iff.1 h
      obtain ⟨b₁, hb₁, rfl⟩ := Option.map_eq_some_iff.1 h
      have htail := ih hl hb₁
      rw [Option.any_none, hi e₁ he₁] at htail
      simp only [List.all_cons, eval_closeOr, Joint.holds]
      rw [htail]

theorem blockRun_of_orRun {l : List (Connector × ConditionText u)} {o : Option Expression}
    {e e' : Expression} (h : orRun o e l = some (e', [])) :
    blockRun o e l = some (e', []) := by
  rw [blockRun_eq_bind, h]
  rfl

theorem ConditionText.eval_tree (v : FieldExpression → Bool) (i : ConditionText u) :
    ∀ e, i.tree? = some e → e.eval v = i.value v := by
  induction i using ConditionText.induct with
  | atom a =>
    rintro e h
    cases h
    rfl
  | not t operand ih =>
    intro e h
    obtain ⟨e₁, he₁, rfl⟩ := Option.map_eq_some_iff.1 h
    exact congrArg _ (ih e₁ he₁)
  | group l first rest r ih hrest =>
    intro e h
    rw [tree?] at h
    obtain ⟨e₁, he₁, h⟩ := Option.bind_eq_some_iff.1 h
    rw [tree_go] at h
    obtain ⟨⟨e₂, left⟩, hrun, h⟩ := Option.bind_eq_some_iff.1 h
    split at h
    · next hleft =>
      cases h
      obtain rfl : left = [] := hleft
      have hmean := eval_blockRun (v := v) hrest (blockRun_of_orRun hrun)
      rw [List.all_nil, Bool.and_true, Option.any_none, ih e₁ he₁] at hmean
      rw [hmean, value, value_go]
    · cases h

theorem BlockText.eval_tree {c : BlockText u} {e : Expression} (h : c.tree? = some e)
    (v : FieldExpression → Bool) :
    e.eval v = Joint.holds (ConditionText.value v) false (c.first.value v) (joints c.rest) := by
  obtain ⟨b, hb, rfl⟩ := Option.map_eq_some_iff.1 h
  obtain ⟨e₁, he₁, hb⟩ := Option.bind_eq_some_iff.1 hb
  rw [eval_foldl_and, eval_blockRun (fun x _ => x.2.eval_tree v) hb, Option.any_none,
    c.first.eval_tree v e₁ he₁]


/-! ### Which conditions are accepted -/

namespace ConditionText

theorem unseparated_go {l : List (Connector × ConditionText u)} :
    Unseparated.go l ↔ ∀ x ∈ l, x.1.joint = .or ∧ x.2.Unseparated := by
  induction l with
  | nil => simp [Unseparated.go]
  | cons x l ih => rw [Unseparated.go, ih, List.forall_mem_cons, and_assoc]

theorem isSome_tree_of_unseparated (i : ConditionText u) (h : i.Unseparated) :
    i.tree?.isSome = true := by
  induction i using ConditionText.induct with
  | atom a => rfl
  | not t operand ih =>
    rw [tree?, Option.isSome_map]
    exact ih h
  | group l first rest r ih hrest =>
    obtain ⟨hfirst, hgo⟩ := h
    obtain ⟨e, he⟩ := Option.isSome_iff_exists.1 (ih hfirst)
    have hrow : ∀ (l : List (Connector × ConditionText u)),
        (∀ x ∈ l, x.1.joint = .or ∧ x.2.tree?.isSome = true) → ∀ o e,
          (tree?.go o e l).isSome = true := by
      intro l hl
      induction l with
      | nil => exact fun o e => rfl
      | cons x l ihl =>
        intro o e
        obtain ⟨k, i⟩ := x
        obtain ⟨⟨hk, hi⟩, htail⟩ := List.forall_mem_cons.1 hl
        obtain ⟨e', he'⟩ := Option.isSome_iff_exists.1 hi
        cases k with
        | or t =>
          dsimp only at he'
          rw [tree?.go, he']
          exact ihl htail _ _
        | and t | comma t | newline => cases hk
    rw [tree?, he]
    exact hrow rest (fun x hx => ⟨(unseparated_go.1 hgo x hx).1,
      hrest x hx (unseparated_go.1 hgo x hx).2⟩) none e

theorem tree_spread (i : ConditionText u) (h : ¬ i.Unseparated) : i.spread.tree? = none := by
  induction i using ConditionText.induct with
  | atom a => exact absurd trivial h
  | not t operand ih => rw [spread, tree?, ih h, Option.map_none]
  | group l first rest r ih hrest =>
    have hrow : ∀ l : List (Connector × ConditionText u), (∀ x ∈ l, ¬ x.2.Unseparated →
        x.2.spread.tree? = none) → ¬ Unseparated.go l → ∀ o e, tree?.go o e (spread.go l) = none := by
      intro l hl hnot
      induction l with
      | nil => exact absurd trivial hnot
      | cons x l ihl =>
        intro o e
        obtain ⟨k, i⟩ := x
        obtain ⟨hi, htail⟩ := List.forall_mem_cons.1 hl
        rw [spread.go]
        cases k with
        | or t =>
          rw [if_pos (show (Connector.or t).joint = .or from rfl), tree?.go]
          by_cases hui : i.Unseparated
          · refine Option.bind_eq_none_iff.2 fun e' _ =>
              ihl htail (fun hgo => hnot ⟨rfl, hui, hgo⟩) _ _
          · have hnone : i.spread.tree? = none := hi hui
            rw [hnone]
            rfl
        | and t | comma t | newline => rfl
    rw [spread, tree?]
    by_cases hfirst : first.Unseparated
    · exact Option.bind_eq_none_iff.2 fun e _ => hrow rest hrest (fun hgo => h ⟨hfirst, hgo⟩) none e
    · rw [ih hfirst]
      rfl

theorem varies_refl (i : ConditionText u) : i.Varies i := by
  induction i using ConditionText.induct with
  | atom a => rfl
  | not t operand ih => exact ⟨rfl, ih⟩
  | group l first rest r ih hrest =>
    refine ⟨rfl, rfl, ih, ?_⟩
    induction rest with
    | nil => trivial
    | cons x rest ihl =>
      obtain ⟨hx, hrest⟩ := List.forall_mem_cons.1 hrest
      exact ⟨.inl rfl, hx, ihl hrest⟩

theorem varies_spread (i : ConditionText u) : i.Varies i.spread := by
  induction i using ConditionText.induct with
  | atom a => rfl
  | not t operand ih => exact ⟨rfl, ih⟩
  | group l first rest r ih hrest =>
    refine ⟨rfl, rfl, ih, ?_⟩
    induction rest with
    | nil => trivial
    | cons x rest ihl =>
      obtain ⟨k, i⟩ := x
      obtain ⟨hx, hrest⟩ := List.forall_mem_cons.1 hrest
      refine ⟨?_, hx, ihl hrest⟩
      by_cases hk : k.joint = .or
      · rw [if_pos hk]
        exact .inl rfl
      · rw [if_neg hk]
        exact .inr ⟨hk, by decide⟩

/-- Without a separator there is nothing to vary. -/
theorem eq_of_varies {i j : ConditionText u} (h : i.Varies j) (hu : i.Unseparated) : j = i := by
  induction i using ConditionText.induct generalizing j with
  | atom a =>
    cases j with
    | atom b => exact congrArg _ (h : a = b).symm
    | not t operand => exact h.elim
    | group l first rest r => exact h.elim
  | not t operand ih =>
    cases j with
    | atom b => exact h.elim
    | not t' operand' =>
      obtain ⟨rfl, h⟩ := h
      rw [ih h hu]
    | group l first rest r => exact h.elim
  | group l first rest r ih hrest =>
    cases j with
    | atom b => exact h.elim
    | not t' operand' => exact h.elim
    | group l' first' rest' r' =>
      obtain ⟨rfl, rfl, hfirst, hgo⟩ := h
      obtain ⟨hufirst, hugo⟩ := hu
      have hrow : rest' = rest := by
        induction rest generalizing rest' with
        | nil =>
          cases rest' with
          | nil => rfl
          | cons x rest' => exact hgo.elim
        | cons x rest ihl =>
          obtain ⟨k, i⟩ := x
          cases rest' with
          | nil => exact hgo.elim
          | cons x' rest' =>
            obtain ⟨k', i'⟩ := x'
            obtain ⟨hk, hi, hgo⟩ := hgo
            obtain ⟨huk, hui, hugo⟩ := hugo
            obtain ⟨hix, hrest⟩ := List.forall_mem_cons.1 hrest
            obtain rfl : k = k' := hk.resolve_right fun hne => hne.1 huk
            rw [hix hi hui, ihl hrest _ hgo hugo]
      rw [ih hfirst hufirst, hrow]

end ConditionText


namespace BlockText

/-- No group in the block has a separator. -/
def Unseparated (c : BlockText u) : Prop :=
  c.first.Unseparated ∧ ∀ x ∈ c.rest, x.2.Unseparated

/-- Whenever all conditions between two ORs of the block hold, so does one of the conditions
between any two separators. -/
def AlternativesImplyClauses (c : BlockText u) : Prop :=
  ∀ value, ∀ alternative ∈ Joint.alternatives c.first (joints c.rest),
    ∀ clause ∈ Joint.clauses c.first (joints c.rest),
      (∀ i ∈ alternative, i.value value = true) → ∃ i ∈ clause, i.value value = true

theorem isSome_blockRun {l : List (Connector × ConditionText u)} {o : Option Expression}
    {e : Expression} : (blockRun o e l).isSome = true ↔ ∀ x ∈ l, x.2.tree?.isSome = true := by
  induction l generalizing o e with
  | nil => simp [blockRun]
  | cons x l ih =>
    obtain ⟨k, i⟩ := x
    rw [List.forall_mem_cons, blockRun]
    cases htree : i.tree? with
    | none => cases k.joint <;> simp
    | some e' =>
      cases k.joint with
      | or => simpa using ih
      | tight => simpa using ih
      | loose => simpa using ih

theorem isSome_tree (c : BlockText u) :
    c.tree?.isSome = true ↔
      c.first.tree?.isSome = true ∧ ∀ x ∈ c.rest, x.2.tree?.isSome = true := by
  rw [tree?, Option.isSome_map]
  cases c.first.tree? with
  | none => simp
  | some e => simpa using isSome_blockRun

/-- A block is accepted with its tree, and with no other. -/
theorem parseWhereBlock_ok_iff (c : BlockText u) (l : Tok .lbrace) (r : Tok .rbrace)
    (rest : List Token) (last : Token) (e : Expression) :
    (parseWhereBlock u).run ⟨l.1 :: (c.tokens ++ r.1 :: rest), last⟩ = .ok (e, ⟨rest, last⟩) ↔
      c.tree? = some e := by
  have hagrees := c.parseWhereBlock_agrees l r rest last
  cases htree : c.tree? with
  | none =>
    obtain ⟨err, herr⟩ := htree ▸ hagrees
    rw [herr]
    exact iff_of_false nofun nofun
  | some e' =>
    rw [htree] at hagrees
    rw [show _ = _ from hagrees]
    constructor
    · rintro h
      cases h
      rfl
    · rintro h
      cases h
      rfl

/-- The block with its separators in place of another. -/
def separatedBy (k : Connector) (c : BlockText u) : BlockText u where
  first := c.first
  rest := c.rest.map fun x => (if x.1.joint = .or then x.1 else k, x.2)

theorem joints_separatedBy (k : Connector) (c : BlockText u) :
    joints (c.separatedBy k).rest = Joint.rejoin k.joint (joints c.rest) := by
  simp only [joints, separatedBy, Joint.rejoin, List.map_map]
  refine List.map_congr_left fun x _ => ?_
  dsimp only [Function.comp]
  split_ifs with hx
  · rw [hx]
  · rfl

theorem varies_separatedBy {k : Connector} (hk : k.joint ≠ .or) (c : BlockText u) :
    c.Varies (c.separatedBy k) := by
  refine ⟨c.first.varies_refl, ?_⟩
  rw [separatedBy]
  induction c.rest with
  | nil => trivial
  | cons x l ih =>
    obtain ⟨k', i⟩ := x
    refine ⟨?_, i.varies_refl, ih⟩
    dsimp only
    split_ifs with hk'
    · exact .inl rfl
    · exact .inr ⟨hk', hk⟩

/-- Only the separators of the block itself vary if there are no others. -/
theorem Varies.of_unseparated {c c' : BlockText u} (h : c.Varies c') (hu : c.Unseparated) :
    c'.first = c.first ∧ (∀ x ∈ c'.rest, x.2.Unseparated) ∧
      Joint.rejoin .tight (joints c'.rest) = Joint.rejoin .tight (joints c.rest) := by
  obtain ⟨first, rest⟩ := c
  obtain ⟨first', rest'⟩ := c'
  obtain ⟨hfirst, hgo⟩ := h
  obtain ⟨hufirst, hurest⟩ := hu
  refine ⟨ConditionText.eq_of_varies hfirst hufirst, ?_⟩
  dsimp only at hgo hurest ⊢
  clear hfirst hufirst
  induction rest generalizing rest' with
  | nil =>
    cases rest' with
    | nil => exact ⟨hurest, rfl⟩
    | cons x rest' => exact hgo.elim
  | cons x rest ih =>
    obtain ⟨k, i⟩ := x
    cases rest' with
    | nil => exact hgo.elim
    | cons x' rest' =>
      obtain ⟨k', i'⟩ := x'
      obtain ⟨hk, hi, hgo⟩ := hgo
      obtain ⟨hui, hurest⟩ := List.forall_mem_cons.1 hurest
      obtain ⟨hurest', htail⟩ := ih _ hgo hurest
      obtain rfl := ConditionText.eq_of_varies hi hui
      refine ⟨List.forall_mem_cons.2 ⟨hui, hurest'⟩, ?_⟩
      have hjoint : (if k'.joint = .or then Joint.or else .tight) =
          if k.joint = .or then Joint.or else .tight := by
        rcases hk with rfl | ⟨hk, hk'⟩
        · rfl
        · rw [if_neg hk, if_neg hk']
      simp only [joints, List.map_cons, Joint.rejoin, hjoint] at htail ⊢
      rw [htail]

/-- Separators are interchangeable exactly if no group has one and every alternative of the block
implies every clause. -/
theorem interchangeable_iff (c : BlockText u) :
    c.Interchangeable ↔ c.Unseparated ∧ c.AlternativesImplyClauses := by
  have l : Tok .lbrace := ⟨⟨.lbrace, 1, 1, "\x7b"⟩, rfl⟩
  have r : Tok .rbrace := ⟨⟨.rbrace, 1, 1, "\x7d"⟩, rfl⟩
  have hextremes : c.AlternativesImplyClauses ↔ ∀ value,
      Joint.holds (ConditionText.value value) false (c.first.value value)
          (Joint.rejoin .loose (joints c.rest)) =
        Joint.holds (ConditionText.value value) false (c.first.value value)
          (Joint.rejoin .tight (joints c.rest)) := by
    simp only [AlternativesImplyClauses, Joint.holds_loose_eq_tight_iff, List.all_eq_true,
      List.any_eq_true]
  rw [hextremes]
  constructor
  · intro h
    refine ⟨?_, fun value => ?_⟩
    · have hvaries : c.Varies ⟨c.first.spread, c.rest.map fun x => (x.1, x.2.spread)⟩ := by
        refine ⟨c.first.varies_spread, ?_⟩
        dsimp only
        induction c.rest with
        | nil => trivial
        | cons x l ih => exact ⟨.inl rfl, x.2.varies_spread, ih⟩
      obtain ⟨e, -, hparse, -⟩ := h _ _ hvaries hvaries l r [] l.1
      have htree := (parseWhereBlock_ok_iff _ l r [] l.1 e).1 hparse
      obtain ⟨hfirst, hrest⟩ := (isSome_tree _).1 (Option.isSome_iff_exists.2 ⟨e, htree⟩)
      constructor
      · by_contra hnot
        rw [c.first.tree_spread hnot] at hfirst
        cases hfirst
      · intro x hx
        by_contra hnot
        have hnone := hrest _ (List.mem_map_of_mem hx)
        dsimp only at hnone
        rw [x.2.tree_spread hnot] at hnone
        cases hnone
    · obtain ⟨e, e', hparse, hparse', heval⟩ := h _ _
        (c.varies_separatedBy (k := .newline) (by decide))
        (c.varies_separatedBy (k := .and ⟨⟨.and, 1, 1, "AND"⟩, rfl⟩) (by simp [Connector.joint])) l r
        [] l.1
      have hloose := eval_tree ((parseWhereBlock_ok_iff _ l r [] l.1 e).1 hparse) value
      have htight := eval_tree ((parseWhereBlock_ok_iff _ l r [] l.1 e').1 hparse') value
      rw [joints_separatedBy] at hloose htight
      exact hloose.symm.trans ((heval value).trans htight)
  · rintro ⟨hu, hagree⟩ c' c'' h' h'' l r rest last
    have haccepted : ∀ c', c.Varies c' → ∃ e, (parseWhereBlock u).run
        ⟨l.1 :: (c'.tokens ++ r.1 :: rest), last⟩ = .ok (e, ⟨rest, last⟩) ∧ ∀ value, e.eval value =
          Joint.holds (ConditionText.value value) false (c.first.value value)
            (Joint.rejoin .tight (joints c.rest)) := by
      intro c' h
      obtain ⟨hfirst, hrest, hrow⟩ := h.of_unseparated hu
      obtain ⟨e, he⟩ := Option.isSome_iff_exists.1 (c'.isSome_tree.2
        ⟨hfirst ▸ c.first.isSome_tree_of_unseparated hu.1,
          fun x hx => x.2.isSome_tree_of_unseparated (hrest x hx)⟩)
      refine ⟨e, (parseWhereBlock_ok_iff c' l r rest last e).2 he, fun value => ?_⟩
      rw [eval_tree he, hfirst]
      exact Joint.holds_eq_tight _ hrow (hagree value)
    obtain ⟨e', hparse', heval'⟩ := haccepted c' h'
    obtain ⟨e'', hparse'', heval''⟩ := haccepted c'' h''
    exact ⟨e', e'', hparse', hparse'', fun value => (heval' value).trans (heval'' value).symm⟩

end BlockText

/-- `name = n` -/
def equalsAtom (u : Unicode) (name : String) (n : ℤ) : Atom u where
  tokens := [⟨.identifier name, 1, 1, name⟩, ⟨.eq, 1, 1, "="⟩, ⟨.integer n, 1, 1, toString n⟩]
  expr := ⟨⟨name, []⟩, .comparison .eq, .literal (.integer n)⟩
  starts := ⟨name, _, _, rfl, rfl⟩
  reads := by
    rintro ⟨type, line, column, lexeme⟩ ts last h
    cases type <;> first | exact h.elim | rfl

/-- `{ a = 1 OR b = 2, c = 3 }` holds wherever `a = 1` does; with a newline for the comma it
does not. -/
theorem BlockText.not_interchangeable_or :
    ¬ (⟨.atom (equalsAtom .ascii "a" 1), [(.or ⟨⟨.or, 1, 1, "OR"⟩, rfl⟩, .atom (equalsAtom .ascii "b" 2)),
      (.comma ⟨⟨.comma, 1, 1, ","⟩, rfl⟩, .atom (equalsAtom .ascii "c" 3))]⟩ :
        BlockText .ascii).Interchangeable := by
  intro h
  obtain ⟨e, e', hparse, hparse', heval⟩ := h
    ⟨.atom (equalsAtom .ascii "a" 1), [(.or ⟨⟨.or, 1, 1, "OR"⟩, rfl⟩, .atom (equalsAtom .ascii "b" 2)),
      (.comma ⟨⟨.comma, 1, 1, ","⟩, rfl⟩, .atom (equalsAtom .ascii "c" 3))]⟩
    ⟨.atom (equalsAtom .ascii "a" 1), [(.or ⟨⟨.or, 1, 1, "OR"⟩, rfl⟩, .atom (equalsAtom .ascii "b" 2)),
      (.newline, .atom (equalsAtom .ascii "c" 3))]⟩
    ⟨rfl, .inl rfl, rfl, .inl rfl, rfl, trivial⟩
    ⟨rfl, .inl rfl, rfl, .inr ⟨by decide, by decide⟩, rfl, trivial⟩
    ⟨⟨.lbrace, 1, 1, "\x7b"⟩, rfl⟩ ⟨⟨.rbrace, 1, 1, "\x7d"⟩, rfl⟩ [] ⟨.eof, 1, 1, ""⟩
  cases hparse
  cases hparse'
  exact absurd (heval fun fe => fe.field.root = "a") (by decide)

end AltrStream.QueryEngine
