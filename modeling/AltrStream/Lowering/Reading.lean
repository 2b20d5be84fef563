import AltrStream.Lowering.Tokens

/-! # Conditions are read back as they are meant

A condition is whole if it is a predicate, a NOT in front of a whole condition or
a group of whole conditions, joined by AND within OR. A whole condition is read
back as its tree, whatever follows.
-/
namespace AltrStream.Lowering
open Foundations Python QueryEngine Semantics

/-- Conditions that are read as one predicate. A list has at least one operand. -/
def Condition.IsPredicate : Condition → Prop
  | constant | isNull _ | isNotNull _ | compare .. | between .. | notBetween .. | like .. | notLike .. =>
    True
  | isIn _ xs | notIn _ xs => xs ≠ []
  | _ => False

/-- Conditions that precedence does not take apart. -/
inductive Condition.Whole : Condition → Prop
  | predicate {c : Condition} (h : c.IsPredicate) : Whole c
  | not {c : Condition} (h : Whole c) : Whole (.not c)
  | group (css : List (List Condition)) (hne : css ≠ []) (hne' : ∀ cs ∈ css, cs ≠ [])
      (h : ∀ cs ∈ css, ∀ c ∈ cs, Whole c) : Whole (.group (.joinOr (css.map .joinAnd)))

namespace Condition

theorem Whole.groupAnd {cs : List Condition} (hne : cs ≠ []) (h : ∀ c ∈ cs, c.Whole) :
    Whole (.group (.joinAnd cs)) :=
  .group [cs] (List.cons_ne_nil _ _) (by simpa using hne) (by simpa using h)

theorem Whole.groupOr {cs : List Condition} (hne : cs ≠ []) (h : ∀ c ∈ cs, c.Whole) :
    Whole (.group (.joinOr cs)) := by
  have hmap : (cs.map fun c => [c]).map joinAnd = cs := by
    rw [List.map_map]
    exact List.map_id cs
  rw [← hmap]
  exact .group _ (by simpa using hne) (by simp) (by simpa using h)

theorem Whole.and {l r : Condition} (hl : l.Whole) (hr : r.Whole) : Whole (.group (.and l r)) :=
  @groupAnd [l, r] (List.cons_ne_nil _ _) (by simp [hl, hr])

theorem Whole.or {l r : Condition} (hl : l.Whole) (hr : r.Whole) : Whole (.group (.or l r)) :=
  @groupOr [l, r] (List.cons_ne_nil _ _) (by simp [hl, hr])

end Condition

/-! ### Predicates -/

section
open SqlToken

@[simp] theorem readOperand_ofOperand (x : SqlOperand) : readOperand (ofOperand x) = some x := by
  cases x <;> rfl

theorem readOperands_operands {xs : List SqlOperand} (h : xs ≠ []) (rest : List SqlToken) :
    readOperands (operands xs ++ closing :: rest) = some (xs, rest) := by
  induction xs with
  | nil => exact absurd rfl h
  | cons x xs ih =>
    cases xs with
    | nil => simp [operands, readOperands]
    | cons y ys =>
      rw [operands, List.cons_append, List.cons_append, readOperands, readOperand_ofOperand]
      simp only [Option.bind_some]
      rw [ih (List.cons_ne_nil _ _)]
      rfl
      exact List.cons_ne_nil _ _

/-- The reader takes a predicate and nothing behind it. -/
theorem readPredicate_tokens {c : Condition} (h : c.IsPredicate) (rest : List SqlToken) :
    readPredicate (c.tokens ++ rest) = some (c, rest) := by
  have hlist := fun (xs : List SqlOperand) (hxs : xs ≠ []) => readOperands_operands hxs rest
  cases c <;> first | exact h.elim | skip
  case isIn c xs => simp [Condition.tokens, readPredicate, hlist xs h]
  case notIn c xs => simp [Condition.tokens, readPredicate, hlist xs h]
  all_goals simp [Condition.tokens, readPredicate]

end

/-! ### Joined conditions -/

namespace Condition

theorem tokens_foldl_and (c : Condition) (cs : List Condition) :
    (cs.foldl .and c).tokens = c.tokens ++ cs.flatMap fun c => .word .and :: c.tokens := by
  induction cs generalizing c with
  | nil => simp
  | cons c' cs ih => rw [List.foldl_cons, ih, tokens, List.flatMap_cons, List.append_assoc]

theorem tokens_foldl_or (c : Condition) (cs : List Condition) :
    (cs.foldl .or c).tokens = c.tokens ++ cs.flatMap fun c => .word .or :: c.tokens := by
  induction cs generalizing c with
  | nil => simp
  | cons c' cs ih => rw [List.foldl_cons, ih, tokens, List.flatMap_cons, List.append_assoc]

theorem tokens_joinAnd_cons (c c' : Condition) (cs : List Condition) :
    (joinAnd (c :: c' :: cs)).tokens = c.tokens ++ .word .and :: (joinAnd (c' :: cs)).tokens := by
  rw [joinAnd, joinAnd, tokens_foldl_and, tokens_foldl_and, List.flatMap_cons, List.cons_append]

theorem tokens_joinOr_cons (c c' : Condition) (cs : List Condition) :
    (joinOr (c :: c' :: cs)).tokens = c.tokens ++ .word .or :: (joinOr (c' :: cs)).tokens := by
  rw [joinOr, joinOr, tokens_foldl_or, tokens_foldl_or, List.flatMap_cons, List.cons_append]

theorem conjoin_map_tree {cs : List Condition} (h : cs ≠ []) :
    conjoin (cs.map tree) = some (joinAnd cs).tree := by
  cases cs with
  | nil => exact absurd rfl h
  | cons c cs =>
    have hfold : ∀ c : Condition, (cs.foldl .and c).tree = (cs.map tree).foldl .and c.tree := by
      induction cs with
      | nil => exact fun _ => rfl
      | cons c' cs ih => exact fun c => ih (List.cons_ne_nil _ _) (.and c c')
    rw [List.map_cons, conjoin, joinAnd, hfold]

theorem disjoin_map_tree {cs : List Condition} (h : cs ≠ []) :
    disjoin (cs.map tree) = some (joinOr cs).tree := by
  cases cs with
  | nil => exact absurd rfl h
  | cons c cs =>
    have hfold : ∀ c : Condition, (cs.foldl .or c).tree = (cs.map tree).foldl .or c.tree := by
      induction cs with
      | nil => exact fun _ => rfl
      | cons c' cs ih => exact fun c => ih (List.cons_ne_nil _ _) (.or c c')
    rw [List.map_cons, disjoin, joinOr, hfold]

end Condition

/-! ### Whole conditions -/

/-- A condition is read as its tree wherever a primary is read. -/
def ReadBack (c : Condition) : Prop := ∀ (n : ℕ) (rest : List SqlToken), 3 * c.tokens.length ≤ n →
  readPrimary n (c.tokens ++ rest) = some (c.tree, rest)

theorem readConjuncts_joinAnd {cs : List Condition} (hne : cs ≠ []) (h : ∀ c ∈ cs, ReadBack c)
    {n : ℕ} {rest : List SqlToken} (hn : 3 * (Condition.joinAnd cs).tokens.length + 1 ≤ n)
    (hrest : rest.head? ≠ some (.word .and)) :
    readConjuncts n ((Condition.joinAnd cs).tokens ++ rest) = some (cs.map Condition.tree, rest) := by
  induction cs generalizing n with
  | nil => exact absurd rfl hne
  | cons c cs ih =>
    obtain ⟨hc, hcs⟩ := List.forall_mem_cons.1 h
    obtain ⟨n, rfl⟩ : ∃ k, n = k + 1 := ⟨n - 1, by omega⟩
    cases cs with
    | nil =>
      change readConjuncts (n + 1) (c.tokens ++ rest) = some ([c.tree], rest)
      replace hn : 3 * c.tokens.length + 1 ≤ n + 1 := hn
      rw [readConjuncts, hc n rest (by omega)]
      cases rest with
      | nil => rfl
      | cons t rest =>
        have ht : t ≠ .word .and := fun heq => hrest (congrArg some heq)
        split
        · simp_all
        · simp_all
        · simp_all
    | cons c' cs =>
      rw [Condition.tokens_joinAnd_cons] at hn ⊢
      simp only [List.length_append, List.length_cons] at hn
      rw [List.append_assoc, List.cons_append, readConjuncts, hc n _ (by omega)]
      dsimp only
      rw [ih (List.cons_ne_nil _ _) hcs (by omega)]
      rfl

theorem readDisjuncts_joinOr {css : List (List Condition)} (hne : css ≠ [])
    (hne' : ∀ cs ∈ css, cs ≠ []) (h : ∀ cs ∈ css, ∀ c ∈ cs, ReadBack c)
    {n : ℕ} {rest : List SqlToken}
    (hn : 3 * (Condition.joinOr (css.map .joinAnd)).tokens.length + 2 ≤ n)
    (hand : rest.head? ≠ some (.word .and)) (hor : rest.head? ≠ some (.word .or)) :
    readDisjuncts n ((Condition.joinOr (css.map .joinAnd)).tokens ++ rest) =
      some ((css.map .joinAnd).map Condition.tree, rest) := by
  induction css generalizing n with
  | nil => exact absurd rfl hne
  | cons cs css ih =>
    obtain ⟨hcs, hcss⟩ := List.forall_mem_cons.1 h
    obtain ⟨hcne, hcsne⟩ := List.forall_mem_cons.1 hne'
    obtain ⟨n, rfl⟩ : ∃ k, n = k + 1 := ⟨n - 1, by omega⟩
    cases css with
    | nil =>
      change readDisjuncts (n + 1) ((Condition.joinAnd cs).tokens ++ rest) =
        some ([(Condition.joinAnd cs).tree], rest)
      replace hn : 3 * (Condition.joinAnd cs).tokens.length + 2 ≤ n + 1 := hn
      rw [readDisjuncts, readConjuncts_joinAnd hcne hcs (by omega) hand]
      cases rest with
      | nil =>
        dsimp only
        rw [Condition.conjoin_map_tree hcne]
        rfl
      | cons t rest =>
        have ht : t ≠ .word .or := fun heq => hor (congrArg some heq)
        split
        · simp_all
        · rename_i heq
          obtain ⟨rfl, rfl⟩ := Prod.mk.inj (Option.some.inj heq)
          rw [Condition.conjoin_map_tree hcne]
          rfl
        · simp_all
    | cons cs' css =>
      rw [List.map_cons, List.map_cons, Condition.tokens_joinOr_cons] at hn ⊢
      simp only [List.length_append, List.length_cons] at hn
      rw [List.append_assoc, List.cons_append, readDisjuncts,
        readConjuncts_joinAnd hcne hcs (by omega) (by simp)]
      dsimp only
      rw [Condition.conjoin_map_tree hcne, Option.bind_some, ← List.map_cons,
        ih (List.cons_ne_nil _ _) hcsne hcss (by rw [List.map_cons]; omega)]
      rfl

/-- Precedence gives a whole condition back as its tree, whatever follows. -/
theorem Condition.Whole.readBack {c : Condition} (h : c.Whole) : ReadBack c := by
  induction h with
  | @predicate c h =>
    intro n rest hn
    have hpredicate := readPredicate_tokens h rest
    have hatom : c.tree = .atom c := by cases c <;> first | rfl | exact h.elim
    have hlength : 0 < c.tokens.length := by
      cases c <;> first | exact h.elim | simp [Condition.tokens]
    obtain ⟨n, rfl⟩ : ∃ k, n = k + 1 := ⟨n - 1, by omega⟩
    have hprimary : readPrimary (n + 1) (c.tokens ++ rest) =
        (readPredicate (c.tokens ++ rest)).map fun r => (.atom r.1, r.2) := by
      cases c <;> first | exact h.elim | rfl
    rw [hprimary, hpredicate, hatom]
    rfl
  | @not c h ih =>
    intro n rest hn
    simp only [Condition.tokens, List.length_cons] at hn
    obtain ⟨n, rfl⟩ : ∃ k, n = k + 1 := ⟨n - 1, by omega⟩
    rw [Condition.tokens, List.cons_append, readPrimary, ih n rest (by omega)]
    rfl
  | group css hne hne' h ih =>
    intro n rest hn
    simp only [Condition.tokens, List.length_cons, List.length_append, List.length_nil] at hn
    obtain ⟨n, rfl⟩ : ∃ k, n = k + 1 := ⟨n - 1, by omega⟩
    rw [Condition.tokens, List.cons_append, List.append_assoc, readPrimary, List.singleton_append,
      readDisjuncts_joinOr hne hne' ih (by omega) (by simp) (by simp)]
    dsimp only
    rw [Condition.disjoin_map_tree (by simpa using hne)]
    rfl

/-- A search condition that is whole is read as its tree. -/
theorem Condition.Whole.readCondition {c : Condition} (h : c.Whole) {rest : List SqlToken}
    (hand : rest.head? ≠ some (.word .and)) (hor : rest.head? ≠ some (.word .or)) :
    readCondition (c.tokens ++ rest) = some (c.tree, rest) := by
  have hlength : 3 * c.tokens.length + 2 ≤ 3 * (c.tokens ++ rest).length + 2 := by
    rw [List.length_append]
    omega
  have hread := @readDisjuncts_joinOr [[c]] (by simp) (by simp) (by simpa using h.readBack) _ rest
    hlength hand hor
  change readDisjuncts _ (c.tokens ++ rest) = some ([c.tree], rest) at hread
  rw [Lowering.readCondition, hread]
  rfl

end AltrStream.Lowering
