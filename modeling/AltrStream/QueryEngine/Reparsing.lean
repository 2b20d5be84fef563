import AltrStream.QueryEngine.Parser
import AltrStream.QueryEngine.Printing

/-! # Parsing a printed query

Each production, run on the tokens that spell a value and then others, returns
the value and leaves the others, provided that they do not start with a token that
the production would go on to consume.
-/
namespace AltrStream.QueryEngine
open Foundations Python

/-- A token of the type, at no particular place. -/
def TokenType.token (type : TokenType) : Token := ⟨type, 1, 1, ""⟩

/-- The parser in front of the tokens. -/
def Parser.over (xs : List TokenType) : Parser := ⟨xs.map (·.token), TokenType.eof.token⟩

/-- The run returns the value and leaves the second list of the first. -/
def Yields {α : Type} (m : ParseM α) (xs ys : List TokenType) (a : α) : Prop :=
  m.run (.over xs) = .ok (a, .over ys)

/-- The tokens do not start with one of the type. -/
def Avoids (type : TokenType) (xs : List TokenType) : Prop := ∀ t ∈ xs.head?, t ≠ type

theorem avoids_cons {type t : TokenType} {xs : List TokenType} (h : t ≠ type) :
    Avoids type (t :: xs) := by
  intro t' ht'
  cases ht'
  exact h

/-- The token closes a list. -/
def TokenType.closes : TokenType → Bool
  | .rbrace | .rparen | .semicolon | .eof => true
  | _ => false

/-- The tokens start with one that does not close a list. -/
def Opens (xs : List TokenType) : Prop := ∃ t ts, xs = t :: ts ∧ t.closes = false

theorem opens_cons {t : TokenType} {xs : List TokenType} (h : t.closes = false) : Opens (t :: xs) :=
  ⟨t, xs, rfl, h⟩

namespace Opens

variable {xs ys : List TokenType}

theorem append (h : Opens xs) (ys : List TokenType) : Opens (xs ++ ys) := by
  obtain ⟨t, ts, rfl, ht⟩ := h
  exact ⟨t, ts ++ ys, rfl, ht⟩

theorem avoids (h : Opens xs) {type : TokenType} (htype : type.closes = true) : Avoids type xs := by
  obtain ⟨t, ts, rfl, ht⟩ := h
  refine avoids_cons ?_
  rintro rfl
  rw [ht] at htype
  cases htype

theorem separated {α : Type} {f : α → List TokenType} {l : List α} (hne : l ≠ [])
    (h : ∀ a ∈ l, Opens (f a)) (sep : TokenType) (rest : List TokenType) :
    Opens ([sep].intercalate (l.map f) ++ rest) := by
  refine Opens.append ?_ rest
  match l with
  | [] => exact absurd rfl hne
  | [a] =>
    rw [List.map_singleton, intercalate_singleton]
    exact h a List.mem_cons_self
  | a :: b :: l =>
    rw [List.map_cons, List.map_cons, intercalate_cons_cons]
    exact (h a List.mem_cons_self).append _

end Opens

namespace Yields

variable {α β : Type} {xs ys zs : List TokenType}

theorem pure (a : α) : Yields (Pure.pure a) xs xs a := rfl

theorem bind {m : ParseM α} {f : α → ParseM β} {a : α} {b : β} (hm : Yields m xs ys a)
    (hf : Yields (f a) ys zs b) : Yields (m >>= f) xs zs b :=
  (run_bind_ok hm).trans hf

theorem map {m : ParseM α} {a : α} (f : α → β) (hm : Yields m xs ys a) : Yields (f <$> m) xs ys (f a) := by
  rw [map_eq_pure_bind]
  exact hm.bind (pure (f a))

theorem ite_true {c : Prop} [Decidable c] {m₁ m₂ : ParseM α} {a : α} (hc : c) (h : Yields m₁ xs ys a) :
    Yields (if c then m₁ else m₂) xs ys a := by
  rwa [if_pos hc]

theorem ite_false {c : Prop} [Decidable c] {m₁ m₂ : ParseM α} {a : α} (hc : ¬c) (h : Yields m₂ xs ys a) :
    Yields (if c then m₁ else m₂) xs ys a := by
  rwa [if_neg hc]

end Yields

section
variable {α : Type} {type : TokenType} {xs ys : List TokenType} {a : α}

theorem get_yields {f : Parser → ParseM α} (h : Yields (f (.over xs)) xs ys a) :
    Yields (get >>= f) xs ys a := h

theorem remaining_yields {f : ℕ → ParseM α} (h : Yields (f xs.length) xs ys a) :
    Yields (remaining >>= f) xs ys a := by
  refine Yields.bind ?_ h
  change Except.ok ((xs.map (·.token)).length, _) = _
  rw [List.length_map]

theorem check_of_avoids (hne : type ≠ .eof) (h : Avoids type xs) : (Parser.over xs).check type = false := by
  cases xs with
  | nil => exact decide_eq_false fun heq => hne heq.symm
  | cons t xs => exact decide_eq_false (h t rfl)

theorem check_yields_false (hne : type ≠ .eof) (h : Avoids type xs) : Yields (check type) xs xs false := by
  rw [Yields, run_check, check_of_avoids hne h]

theorem check_yields_true : Yields (check type) (type :: xs) (type :: xs) true :=
  run_check_of_eq rfl

theorem isAtEnd_yields_false (h : Opens xs) : Yields isAtEnd xs xs false := by
  obtain ⟨t, ts, rfl, ht⟩ := h
  exact run_isAtEnd_of_ne fun heof => by rw [show t = .eof from heof] at ht; cases ht

theorem advance_yields (hne : type ≠ .eof) : Yields advance (type :: xs) xs () := run_advance hne

theorem accept_yields_true (hne : type ≠ .eof) : Yields (accept type) (type :: xs) xs true :=
  run_accept_of_eq rfl hne

theorem accept_yields_false (hne : type ≠ .eof) (h : Avoids type xs) :
    Yields (accept type) xs xs false :=
  Yields.bind (check_yields_false hne h) (Yields.pure false)

/-- The token is there. -/
theorem accept_then {m₁ m₂ : ParseM α} (hne : type ≠ .eof) (h : Yields m₁ xs ys a) :
    Yields (accept type >>= fun b => if b = true then m₁ else m₂) (type :: xs) ys a :=
  (accept_yields_true hne).bind h

/-- Another token is there. -/
theorem accept_else {m₁ m₂ : ParseM α} (hne : type ≠ .eof) (hxs : Avoids type xs) (h : Yields m₂ xs ys a) :
    Yields (accept type >>= fun b => if b = true then m₁ else m₂) xs ys a :=
  (accept_yields_false hne hxs).bind h

theorem check_then {m₁ m₂ : ParseM α} (h : Yields m₁ (type :: xs) ys a) :
    Yields (check type >>= fun b => if b = true then m₁ else m₂) (type :: xs) ys a :=
  check_yields_true.bind h

theorem check_else {m₁ m₂ : ParseM α} (hne : type ≠ .eof) (hxs : Avoids type xs) (h : Yields m₂ xs ys a) :
    Yields (check type >>= fun b => if b = true then m₁ else m₂) xs ys a :=
  (check_yields_false hne hxs).bind h

/-- A loop goes on where its list does not close. -/
theorem loop_continues {m : ParseM α} {stop : α} {close : TokenType} (hclose : close.closes = true)
    (hne : close ≠ .eof) (hxs : Opens xs) (h : Yields m xs ys a) :
    Yields (check close >>= fun b => isAtEnd >>= fun b' => if (b || b') = true then pure stop else m)
      xs ys a :=
  (check_yields_false hne (hxs.avoids hclose)).bind ((isAtEnd_yields_false hxs).bind h)

/-- It stops where the list closes. -/
theorem loop_stops {m : ParseM α} (close : TokenType) (stop : α) :
    Yields (check close >>= fun b => isAtEnd >>= fun b' => if (b || b') = true then pure stop else m)
      (close :: xs) (close :: xs) stop :=
  check_yields_true.bind (Yields.bind (a := (Parser.over (close :: xs)).isAtEnd) rfl (Yields.pure stop))

end

section
variable (u : Unicode) {type : TokenType} {xs rest : List TokenType}

theorem consume_yields (hne : type ≠ .eof) (message : String) (expected : List String) :
    Yields (consume u type message expected) (type :: xs) xs () := run_consume_of_eq u rfl hne message expected

theorem consumeIdentifier_yields (message : String) (name : String) :
    Yields (consumeIdentifier u message) (.identifier name :: xs) xs name :=
  get_yields (Yields.bind (advance_yields nofun) (Yields.pure name))

theorem consumeInteger_yields (message : String) (n : ℤ) :
    Yields (consumeInteger u message) (.integer n :: xs) xs n :=
  get_yields (Yields.bind (advance_yields nofun) (Yields.pure n))

/-! ### Paths, literals and value sets -/

theorem keys_yields (keys : List String) {fuel : ℕ} (hfuel : keys.length ≤ fuel) (hrest : Avoids .dot rest) :
    Yields (parseFieldPath.keys u fuel)
      ((keys.flatMap fun key => [.dot, .identifier key]) ++ rest) rest keys := by
  induction keys generalizing fuel with
  | nil =>
    cases fuel with
    | zero => exact Yields.pure []
    | succ fuel => exact accept_else nofun hrest (Yields.pure [])
  | cons key keys ih =>
    cases fuel with
    | zero => simp at hfuel
    | succ fuel =>
      refine accept_then nofun ((consumeIdentifier_yields u _ key).bind ?_)
      exact (ih (Nat.le_of_succ_le_succ hfuel)).bind (Yields.pure _)

theorem parseFieldPath_yields (path : FieldPath) (hrest : Avoids .dot rest) :
    Yields (parseFieldPath u) (path.print ++ rest) rest path := by
  refine (consumeIdentifier_yields u _ path.root).bind (remaining_yields ?_)
  refine (keys_yields u path.keys ?_ hrest).bind (Yields.pure _)
  have hlength : ∀ keys : List String,
      keys.length ≤ (keys.flatMap fun key => [TokenType.dot, .identifier key]).length := by
    intro keys
    induction keys with
    | nil => exact Nat.le_refl 0
    | cons key keys ih =>
      rw [List.flatMap_cons, List.length_append, List.length_cons]
      exact (Nat.add_le_add_right ih 1).trans (by rw [Nat.add_comm]; exact Nat.add_le_add_right (Nat.le_succ 1) _)
  exact (hlength path.keys).trans (by simp)

@[simp] theorem literalOf?_print (l : LiteralValue) : literalOf? l.print = some l := by
  match l with
  | .string _ | .integer _ | .float _ | .null => rfl
  | .boolean true | .boolean false => rfl
  | .temporal (.keyword .today) | .temporal (.keyword .now) | .temporal (.value _) => rfl

/-- A literal is none of the tokens that the productions look for. -/
theorem print_ne_of_literalOf? {type : TokenType} (h : literalOf? type = none) (l : LiteralValue) :
    l.print ≠ type := by
  rintro rfl
  rw [literalOf?_print] at h
  cases h

theorem parseLiteral_yields (l : LiteralValue) : Yields (parseLiteral u) (l.print :: xs) xs l := by
  unfold parseLiteral
  refine get_yields ?_
  have hpeek : ((Parser.over (l.print :: xs)).peek 0).type = l.print := rfl
  dsimp only
  rw [hpeek, literalOf?_print]
  exact Yields.bind (advance_yields (print_ne_of_literalOf? rfl l)) (Yields.pure l)

theorem parseStringLiteral_yields (s : String) :
    Yields (parseStringLiteral u) (.string s :: xs) xs (.string s) :=
  get_yields (Yields.bind (advance_yields nofun) (Yields.pure _))

theorem parseLiteralOrRange_literal (l : LiteralValue) (hrest : Avoids .dotdot rest) :
    Yields (parseLiteralOrRange u) (l.print :: rest) rest (.inl l) :=
  (parseLiteral_yields u l).bind (accept_else nofun hrest (Yields.pure _))

theorem parseLiteralOrRange_range (r : Range) :
    Yields (parseLiteralOrRange u) (r.print ++ rest) rest (.inr r) :=
  (parseLiteral_yields u r.start).bind
    (accept_then nofun ((parseLiteral_yields u r.stop).bind (Yields.pure _)))

@[simp] theorem comparisonOf?_print (op : ComparisonOperator) : comparisonOf? op.print = some op := by
  cases op <;> rfl

theorem acceptComparison_some (op : ComparisonOperator) :
    Yields acceptComparison (op.print :: xs) xs (some op) := by
  unfold acceptComparison
  refine get_yields ?_
  have hpeek : ((Parser.over (op.print :: xs)).peek 0).type = op.print := rfl
  rw [hpeek, comparisonOf?_print]
  exact Yields.bind (advance_yields (by cases op <;> rintro ⟨⟩)) (Yields.pure _)

theorem acceptComparison_none {t : TokenType} (h : comparisonOf? t = none) :
    Yields acceptComparison (t :: xs) (t :: xs) none := by
  unfold acceptComparison
  refine get_yields ?_
  have hpeek : ((Parser.over (t :: xs)).peek 0).type = t := rfl
  rw [hpeek, h]
  exact Yields.pure none

theorem comparisonOf?_literal (l : LiteralValue) : comparisonOf? l.print = none := by
  match l with
  | .string _ | .integer _ | .float _ | .null => rfl
  | .boolean true | .boolean false => rfl
  | .temporal (.keyword .today) | .temporal (.keyword .now) | .temporal (.value _) => rfl

theorem parseCompoundTail_yields {cs : List ComparisonConstraint} (hne : cs ≠ []) {fuel : ℕ}
    (hfuel : cs.length ≤ fuel) (hrest : Avoids .ampersand rest) :
    Yields (parseCompoundTail u fuel) (printCompound cs ++ rest) rest cs := by
  induction cs generalizing fuel with
  | nil => exact absurd rfl hne
  | cons c cs ih =>
    obtain _ | fuel := fuel
    · simp at hfuel
    obtain ⟨op, value⟩ := c
    cases cs with
    | nil =>
      rw [printCompound_singleton]
      refine (acceptComparison_some op).bind ((parseLiteral_yields u value).bind ?_)
      exact accept_else nofun hrest (Yields.pure _)
    | cons c' cs =>
      rw [printCompound_cons, List.append_assoc]
      refine (acceptComparison_some op).bind ((parseLiteral_yields u value).bind ?_)
      refine accept_then nofun ?_
      exact (ih (List.cons_ne_nil _ _) (Nat.le_of_succ_le_succ hfuel)).bind (Yields.pure _)

theorem length_le_printCompound (cs : List ComparisonConstraint) :
    cs.length ≤ (printCompound cs).length := by
  induction cs with
  | nil => exact Nat.zero_le _
  | cons c cs ih =>
    cases cs with
    | nil => simp [printCompound_singleton, ComparisonConstraint.print]
    | cons c' cs =>
      rw [printCompound_cons, List.length_append]
      simp only [List.length_cons] at ih ⊢
      omega

theorem parseValueSetElement_yields {e : ValueSetElement} (he : e.Printable) (hdots : Avoids .dotdot rest)
    (hrest : Avoids .ampersand rest) : Yields (parseValueSetElement u) (e.print ++ rest) rest e := by
  cases e with
  | literal l =>
    refine (acceptComparison_none (comparisonOf?_literal l)).bind ?_
    exact (parseLiteralOrRange_literal u l hdots).bind (Yields.pure _)
  | range r =>
    refine (acceptComparison_none (comparisonOf?_literal r.start)).bind ?_
    exact (parseLiteralOrRange_range u r).bind (Yields.pure _)
  | constraint c =>
    refine (acceptComparison_some c.operator).bind ((parseLiteral_yields u c.value).bind ?_)
    exact accept_else nofun hrest (Yields.pure _)
  | compound cs =>
    obtain _ | ⟨c, _ | ⟨c', cs⟩⟩ := cs
    · exact absurd he (by simp [ValueSetElement.Printable])
    · exact absurd he (by simp [ValueSetElement.Printable])
    · rw [ValueSetElement.print, printCompound_cons, List.append_assoc]
      refine (acceptComparison_some c.operator).bind ((parseLiteral_yields u c.value).bind ?_)
      refine accept_then nofun (remaining_yields ?_)
      refine (parseCompoundTail_yields u (List.cons_ne_nil c' cs) ?_ hrest).bind (Yields.pure _)
      change _ ≤ (printCompound (c' :: cs) ++ rest).length + 1
      have := length_le_printCompound (c' :: cs)
      rw [List.length_append]
      omega

/-- A literal does not close a list. -/
theorem closes_literal (l : LiteralValue) : l.print.closes = false := by
  match l with
  | .string _ | .integer _ | .float _ | .null => rfl
  | .boolean true | .boolean false => rfl
  | .temporal (.keyword .today) | .temporal (.keyword .now) | .temporal (.value _) => rfl

/-- An element starts with an operator or a literal. -/
theorem ValueSetElement.opens {e : ValueSetElement} (he : e.Printable) : Opens e.print := by
  have hcomparison : ∀ op : ComparisonOperator, op.print.closes = false := fun op => by cases op <;> rfl
  cases e with
  | literal l => exact opens_cons (closes_literal l)
  | range r => exact opens_cons (closes_literal r.start)
  | constraint c => exact opens_cons (hcomparison c.operator)
  | compound cs =>
    obtain _ | ⟨c, _ | ⟨c', cs⟩⟩ := cs
    · exact absurd he (by simp [ValueSetElement.Printable])
    · exact absurd he (by simp [ValueSetElement.Printable])
    · exact opens_cons (hcomparison c.operator)

theorem parseValueSetElements_yields {es : List ValueSetElement} (hes : ∀ e ∈ es, e.Printable) {fuel : ℕ}
    (hfuel : es.length ≤ fuel) :
    Yields (parseValueSetElements u fuel)
      ([.comma].intercalate (es.map (·.print)) ++ .rbrace :: rest) (.rbrace :: rest) es := by
  induction es generalizing fuel with
  | nil =>
    cases fuel with
    | zero => exact Yields.pure []
    | succ fuel => exact loop_stops .rbrace []
  | cons e es ih =>
    obtain _ | fuel := fuel
    · simp at hfuel
    refine loop_continues rfl nofun (Opens.separated (List.cons_ne_nil _ _) (fun e' he' => ValueSetElement.opens (hes e' he')) _ _) ?_
    obtain ⟨he, hes⟩ := List.forall_mem_cons.1 hes
    cases es with
    | nil =>
      rw [List.map_singleton, intercalate_singleton]
      refine (parseValueSetElement_yields u he (avoids_cons (by nofun)) (avoids_cons (by nofun))).bind ?_
      exact accept_else nofun (avoids_cons (by nofun)) (check_then (Yields.pure _))
    | cons e' es =>
      rw [List.map_cons, List.map_cons, intercalate_cons_cons, List.append_assoc]
      refine (parseValueSetElement_yields u he (avoids_cons (by nofun)) (avoids_cons (by nofun))).bind ?_
      refine accept_then nofun (check_else nofun (Opens.avoids ?_ rfl) ?_)
      · exact Opens.separated (l := e' :: es) (List.cons_ne_nil _ _) (fun e he => ValueSetElement.opens (hes e he)) _ _
      · exact (ih hes (Nat.le_of_succ_le_succ hfuel)).bind (Yields.pure _)

theorem enclosed_append (x y : TokenType) (xs rest : List TokenType) :
    x :: xs ++ [y] ++ rest = x :: (xs ++ y :: rest) := by simp

/-- A list of items that start with something has no more of them than tokens. -/
theorem length_le_separated {α : Type} {f : α → List TokenType} {l : List α} (h : ∀ a ∈ l, Opens (f a))
    (sep : TokenType) (rest : List TokenType) :
    l.length ≤ ([sep].intercalate (l.map f) ++ rest).length := by
  induction l with
  | nil => exact Nat.zero_le _
  | cons a l ih =>
    obtain ⟨⟨t, ts, ha, -⟩, hl⟩ := List.forall_mem_cons.1 h
    cases l with
    | nil => simp [ha]
    | cons b l =>
      have := ih hl
      rw [List.map_cons, List.map_cons, intercalate_cons_cons, ← List.map_cons]
      simp only [List.length_append, List.length_cons] at this ⊢
      omega

theorem parseValueSet_yields {es : List ValueSetElement} (hne : es ≠ []) (hes : ∀ e ∈ es, e.Printable) :
    Yields (parseValueSet u) ([.comma].intercalate (es.map (·.print)) ++ .rbrace :: rest) rest es := by
  have hopens : ∀ e ∈ es, Opens e.print := fun e he => ValueSetElement.opens (hes e he)
  refine check_else nofun ((Opens.separated hne hopens _ _).avoids rfl) (remaining_yields ?_)
  refine (parseValueSetElements_yields u hes (length_le_separated hopens _ _)).bind ?_
  exact (consume_yields u (by nofun) _ _).bind (Yields.pure es)

/-! ### Expressions -/

theorem parseStringOrValueSet_literal (s : String) :
    Yields (parseStringOrValueSet u) (.string s :: rest) rest (.literal (.string s)) :=
  accept_else nofun (avoids_cons (by nofun)) ((parseStringLiteral_yields u s).bind (Yields.pure _))

theorem parseStringOrValueSet_valueSet {es : List ValueSetElement} (hne : es ≠ [])
    (hes : ∀ e ∈ es, e.Printable) :
    Yields (parseStringOrValueSet u) ((Operand.valueSet es).print ++ rest) rest (.valueSet es) := by
  rw [Operand.print, enclosed_append]
  exact accept_then nofun ((parseValueSet_yields u hne hes).bind (Yields.pure _))

theorem comparison_yields {op : ComparisonOperator} {operand : Operand}
    (h : operand.Printable (.comparison op)) (hdots : Avoids .dotdot rest) :
    Yields (parseOperatorAndOperand u) (op.print :: (operand.print ++ rest)) rest
      (.comparison op, operand) := by
  have hop : ∀ type, comparisonOf? type = none → Avoids type (op.print :: (operand.print ++ rest)) := by
    intro type htype
    refine avoids_cons ?_
    rintro rfl
    rw [comparisonOf?_print] at htype
    cases htype
  unfold parseOperatorAndOperand
  refine accept_else nofun (hop _ rfl) (accept_else nofun (hop _ rfl) ?_)
  refine accept_else nofun (hop _ rfl) (accept_else nofun (hop _ rfl) ?_)
  refine (acceptComparison_some op).bind ?_
  have hliteral : ∀ (l : LiteralValue) (xs : List TokenType), Avoids .lbrace (l.print :: xs) :=
    fun l _ => avoids_cons (print_ne_of_literalOf? rfl l)
  cases operand with
  | literal l =>
    exact accept_else nofun (hliteral l _) ((parseLiteralOrRange_literal u l hdots).bind (Yields.pure _))
  | range r =>
    exact accept_else nofun (hliteral r.start _) ((parseLiteralOrRange_range u r).bind (Yields.pure _))
  | valueSet es =>
    obtain ⟨hordering, hne, hes⟩ := h
    rw [Operand.print, enclosed_append]
    refine accept_then nofun (Yields.ite_false (by simp [hordering]) ?_)
    exact (parseValueSet_yields u hne hes).bind (Yields.pure _)
  | constraint c => exact h.elim
  | compound cs => exact h.elim

theorem stringOperator_yields {op : StringOperator} {operand : Operand}
    (h : operand.Printable (.string op)) :
    Yields (parseOperatorAndOperand u) ((Operator.string op).print ++ (operand.print ++ rest)) rest
      (.string op, operand) := by
  have hset : ∀ es, operand = .valueSet es → op = .has ∨ op = .notHas := by
    rintro es rfl
    exact h.1
  have hoperand : op = .has ∨ op = .notHas →
      Yields (parseStringOrValueSet u) (operand.print ++ rest) rest operand := by
    intro _
    cases operand with
    | literal l =>
      obtain ⟨s, rfl⟩ := h
      exact parseStringOrValueSet_literal u s
    | valueSet es => exact parseStringOrValueSet_valueSet u h.2.1 h.2.2
    | range r => exact h.elim
    | constraint c => exact h.elim
    | compound cs => exact h.elim
  have hliteral : op = .starts ∨ op = .ends → ∃ s, operand = .literal (.string s) := by
    intro hop
    cases operand with
    | literal l =>
      obtain ⟨s, rfl⟩ := h
      exact ⟨s, rfl⟩
    | valueSet es => rcases hop with rfl | rfl <;> exact absurd (hset es rfl) (by simp)
    | range r => exact h.elim
    | constraint c => exact h.elim
    | compound cs => exact h.elim
  unfold parseOperatorAndOperand
  cases op with
  | starts =>
    obtain ⟨s, rfl⟩ := hliteral (.inl rfl)
    exact accept_then nofun ((parseStringLiteral_yields u s).bind (Yields.pure _))
  | ends =>
    obtain ⟨s, rfl⟩ := hliteral (.inr rfl)
    refine accept_else nofun (avoids_cons (by nofun)) ?_
    exact accept_then nofun ((parseStringLiteral_yields u s).bind (Yields.pure _))
  | has =>
    refine accept_else nofun (avoids_cons (by nofun)) (accept_else nofun (avoids_cons (by nofun)) ?_)
    exact accept_then nofun ((hoperand (.inl rfl)).bind (Yields.pure _))
  | notHas =>
    refine accept_else nofun (avoids_cons (by nofun)) (accept_else nofun (avoids_cons (by nofun)) ?_)
    refine accept_else nofun (avoids_cons (by nofun)) (accept_then nofun ?_)
    exact (consume_yields u (by nofun) _ _).bind ((hoperand (.inr rfl)).bind (Yields.pure _))

/-- A field expression, before something that it does not go on with. -/
theorem parseAtomicFieldExpression_yields {e : FieldExpression} (h : e.operand.Printable e.operator)
    (hdots : Avoids .dotdot rest) :
    Yields (parseAtomicFieldExpression u) (e.print ++ rest) rest (.atom e) := by
  obtain ⟨field, operator, operand⟩ := e
  rw [FieldExpression.print, List.append_assoc, List.append_assoc]
  refine (parseFieldPath_yields u field ?_).bind ?_
  · cases operator with
    | comparison op => exact avoids_cons (by cases op <;> nofun)
    | string op => cases op <;> exact avoids_cons (by nofun)
  · cases operator with
    | comparison op => exact (comparison_yields u h hdots).bind (Yields.pure _)
    | string op => exact (stringOperator_yields u h).bind (Yields.pure _)

theorem opens_path (path : FieldPath) : Opens path.print := opens_cons rfl

theorem opens_expression (e : Expression) : Opens (printExpression e) := by
  cases e with
  | atom e => exact (opens_path e.field).append _
  | not e => exact opens_cons rfl
  | and l r => exact opens_cons rfl
  | or l r => exact opens_cons rfl

theorem checkOperandFollows_yields (keyword : String) (h : Opens xs) :
    Yields (checkOperandFollows u keyword) xs xs () :=
  (check_yields_false (by nofun) (h.avoids rfl)).bind ((isAtEnd_yields_false h).bind
    ((check_yields_false (by nofun) (h.avoids rfl)).bind (Yields.pure ())))

section
variable (parseNot : ParseM Expression)

theorem andLoop_stops (fuel : ℕ) (expr : Expression) (hand : Avoids .and xs) (hcomma : Avoids .comma xs) :
    Yields (andLoop u parseNot fuel expr) xs xs expr := by
  cases fuel with
  | zero => exact Yields.pure expr
  | succ fuel => exact accept_else nofun hand (check_else nofun hcomma (Yields.pure expr))

theorem orLoop_stops (fuel : ℕ) (expr : Expression) (hor : Avoids .or xs) :
    Yields (orLoop u parseNot fuel expr) xs xs expr := by
  cases fuel with
  | zero => exact Yields.pure expr
  | succ fuel => exact accept_else nofun hor (Yields.pure expr)

variable {parseNot} {e l r : Expression} {xs ys zs : List TokenType}

theorem parseAnd_single (h : Yields parseNot xs ys e) (hand : Avoids .and ys) (hcomma : Avoids .comma ys) :
    Yields (parseAnd u parseNot) xs ys e :=
  h.bind (remaining_yields (andLoop_stops u parseNot _ e hand hcomma))

theorem parseAnd_and (hl : Yields parseNot xs (.and :: ys) l) (hr : Yields parseNot ys zs r)
    (hys : Opens ys) (hand : Avoids .and zs) (hcomma : Avoids .comma zs) :
    Yields (parseAnd u parseNot) xs zs (.and l r) := by
  refine hl.bind (remaining_yields (accept_then nofun ?_))
  exact (checkOperandFollows_yields u _ hys).bind
    (hr.bind (andLoop_stops u parseNot _ _ hand hcomma))

theorem parseOr_single (h : Yields (parseAnd u parseNot) xs ys e) (hor : Avoids .or ys) :
    Yields (parseOr u parseNot) xs ys e :=
  h.bind (remaining_yields (orLoop_stops u parseNot _ e hor))

theorem parseOr_or (hl : Yields (parseAnd u parseNot) xs (.or :: ys) l)
    (hr : Yields (parseAnd u parseNot) ys zs r) (hys : Opens ys) (hor : Avoids .or zs) :
    Yields (parseOr u parseNot) xs zs (.or l r) := by
  refine hl.bind (remaining_yields (accept_then nofun ?_))
  exact (checkOperandFollows_yields u _ hys).bind (hr.bind (orLoop_stops u parseNot _ _ hor))

end

/-- A group in braces is a primary expression. -/
theorem parseNot_group {e : Expression} {fuel : ℕ}
    (h : Yields (parseOr u (parseNot u fuel)) (printExpression e ++ .rbrace :: rest) (.rbrace :: rest) e) :
    Yields (parseNot u (fuel + 1)) (.lbrace :: (printExpression e ++ .rbrace :: rest)) rest e := by
  refine accept_else nofun (avoids_cons (by nofun)) (accept_then nofun ?_)
  refine check_else nofun (((opens_expression e).append _).avoids rfl) (h.bind ?_)
  exact (consume_yields u (by nofun) _ _).bind (Yields.pure e)

theorem printExpression_append (e : Expression) (rest : List TokenType) : printExpression e ++ rest =
    match e with
    | .atom e => e.print ++ rest
    | .not e => .not :: .lbrace :: (printExpression e ++ .rbrace :: rest)
    | .and l r => .lbrace :: (printExpression l ++ .rbrace :: .and :: .lbrace ::
        (printExpression r ++ .rbrace :: rest))
    | .or l r => .lbrace :: (printExpression l ++ .rbrace :: .or :: .lbrace ::
        (printExpression r ++ .rbrace :: rest)) := by
  cases e <;> simp [printExpression]

/-- The tree in braces is read back; there are more tokens than it is deep. -/
theorem parseOr_yields {e : Expression} (he : PrintableExpression e) {fuel : ℕ}
    (hfuel : (printExpression e).length ≤ fuel) (rest : List TokenType) :
    Yields (parseOr u (parseNot u fuel)) (printExpression e ++ .rbrace :: rest) (.rbrace :: rest) e := by
  have hbrace : ∀ {type : TokenType}, TokenType.rbrace ≠ type → Avoids type (.rbrace :: rest) := avoids_cons
  induction e generalizing fuel rest with
  | atom e =>
    have hatom := he e (by simp [Formula.atoms])
    obtain _ | fuel := fuel
    · simp [printExpression, FieldExpression.print, FieldPath.print] at hfuel
    refine parseOr_single u (parseAnd_single u ?_ (hbrace (by rintro ⟨⟩)) (hbrace (by rintro ⟨⟩))) (hbrace (by rintro ⟨⟩))
    refine accept_else (by rintro ⟨⟩) (avoids_cons (by rintro ⟨⟩)) (accept_else (by rintro ⟨⟩) (avoids_cons (by rintro ⟨⟩)) ?_)
    exact get_yields (parseAtomicFieldExpression_yields u hatom (hbrace (by rintro ⟨⟩)))
  | not e ih =>
    rw [printExpression_append]
    obtain _ | _ | fuel := fuel
    · simp [printExpression] at hfuel
    · simp [printExpression] at hfuel
    refine parseOr_single u (parseAnd_single u ?_ (hbrace (by rintro ⟨⟩)) (hbrace (by rintro ⟨⟩))) (hbrace (by rintro ⟨⟩))
    refine accept_then (by rintro ⟨⟩) ((checkOperandFollows_yields u _ (opens_cons rfl)).bind ?_)
    refine (parseNot_group u (ih he ?_ _ avoids_cons)).bind (Yields.pure _)
    simp only [printExpression, List.length_append, List.length_cons] at hfuel
    omega
  | and l r hl hr =>
    rw [printExpression_append]
    obtain _ | fuel := fuel
    · simp [printExpression] at hfuel
    simp only [printExpression, List.length_append, List.length_cons] at hfuel
    refine parseOr_single u ?_ (hbrace (by rintro ⟨⟩))
    refine parseAnd_and u (parseNot_group u (hl ?_ ?_ _ avoids_cons))
      (parseNot_group u (hr ?_ ?_ _ avoids_cons)) (opens_cons rfl) (hbrace (by rintro ⟨⟩)) (hbrace (by rintro ⟨⟩))
    · exact fun e h => he e (List.mem_append_left _ h)
    · omega
    · exact fun e h => he e (List.mem_append_right _ h)
    · omega
  | or l r hl hr =>
    rw [printExpression_append]
    obtain _ | fuel := fuel
    · simp [printExpression] at hfuel
    simp only [printExpression, List.length_append, List.length_cons] at hfuel
    refine parseOr_or u
      (parseAnd_single u (parseNot_group u (hl ?_ ?_ _ avoids_cons)) (avoids_cons (by rintro ⟨⟩)) (avoids_cons (by rintro ⟨⟩)))
      (parseAnd_single u (parseNot_group u (hr ?_ ?_ _ avoids_cons)) (hbrace (by rintro ⟨⟩)) (hbrace (by rintro ⟨⟩)))
      (opens_cons rfl) (hbrace (by rintro ⟨⟩))
    · exact fun e h => he e (List.mem_append_left _ h)
    · omega
    · exact fun e h => he e (List.mem_append_right _ h)
    · omega

theorem parseWhereBlock_yields {e : Expression} (he : PrintableExpression e) (rest : List TokenType) :
    Yields (parseWhereBlock u) (.lbrace :: (printExpression e ++ .rbrace :: rest)) rest e := by
  have hopens : Opens (printExpression e ++ .rbrace :: rest) := (opens_expression e).append _
  have hlength : 0 < (printExpression e ++ .rbrace :: rest).length := by simp
  have horExpression : Yields (parseOrExpression u) (printExpression e ++ .rbrace :: rest) (.rbrace :: rest) e :=
    remaining_yields (parseOr_yields u he (by simp) rest)
  obtain ⟨n, hn⟩ := Nat.exists_eq_add_one.2 hlength
  have hloop : Yields (whereLoop u (printExpression e ++ .rbrace :: rest).length)
      (printExpression e ++ .rbrace :: rest) (.rbrace :: rest) [e] := by
    rw [hn]
    refine loop_continues rfl nofun hopens (horExpression.bind ?_)
    exact accept_else nofun (avoids_cons (by nofun)) (check_then (Yields.pure _))
  refine (consume_yields u (by nofun) _ _).bind (check_else nofun (hopens.avoids rfl) (remaining_yields ?_))
  exact hloop.bind ((consume_yields u (by nofun) _ _).bind (Yields.pure e))

theorem parseOptionalWhere_yields {w : Option Expression} (hw : ∀ e ∈ w, PrintableExpression e)
    (hrest : Avoids .where_ rest) : Yields (parseOptionalWhere u) (printWhere w ++ rest) rest w := by
  cases w with
  | none => exact accept_else nofun hrest (Yields.pure none)
  | some e =>
    rw [printWhere, List.cons_append, List.cons_append, enclosed_append]
    exact accept_then nofun ((parseWhereBlock_yields u (hw e rfl) rest).map some)

/-! ### Projections, sorting and ranking -/

theorem opens_selection (s : FieldSelection) : Opens s.print := (opens_path s.path).append _

/-- A selection, before the rest of its list. -/
theorem selection_yields {α : Type} (s : FieldSelection) {k : FieldPath → Option String → ParseM α}
    {xs ys : List TokenType} {a : α} (hdot : Avoids .dot xs) (has : Avoids .as_ xs)
    (h : Yields (k s.path s.alias_) xs ys a) :
    Yields (do
      let path ← parseFieldPath u
      let alias_ ← if ← accept .as_ then
          some <$> consumeIdentifier u "Expected alias identifier after 'AS'."
        else pure none
      k path alias_) (s.print ++ xs) ys a := by
  obtain ⟨path, _ | name⟩ := s
  · rw [FieldSelection.print, Option.elim_none, List.append_nil]
    exact (parseFieldPath_yields u path hdot).bind (accept_else nofun has h)
  · rw [FieldSelection.print, Option.elim_some, List.append_assoc]
    refine (parseFieldPath_yields u path (avoids_cons (by nofun))).bind (accept_then nofun ?_)
    exact ((consumeIdentifier_yields u _ name).map some).bind h

theorem selectionLoop_yields {ss : List FieldSelection} (hne : ss ≠ []) {fuel : ℕ}
    (hfuel : ss.length ≤ fuel) :
    Yields (selectionLoop u fuel) ([.comma].intercalate (ss.map (·.print)) ++ .rparen :: rest) rest ss := by
  induction ss generalizing fuel with
  | nil => exact absurd rfl hne
  | cons s ss ih =>
    obtain _ | fuel := fuel
    · simp at hfuel
    cases ss with
    | nil =>
      rw [List.map_singleton, intercalate_singleton]
      refine selection_yields u s (avoids_cons (by nofun)) (avoids_cons (by nofun)) ?_
      exact accept_else nofun (avoids_cons (by nofun)) (accept_then nofun (Yields.pure _))
    | cons s' ss =>
      rw [List.map_cons, List.map_cons, intercalate_cons_cons, List.append_assoc]
      refine selection_yields u s (avoids_cons (by nofun)) (avoids_cons (by nofun)) ?_
      refine accept_then nofun (check_else nofun (Opens.avoids ?_ rfl) ?_)
      · exact Opens.separated (l := s' :: ss) (List.cons_ne_nil _ _) (fun s _ => opens_selection s) _ _
      · exact (ih (List.cons_ne_nil _ _) (Nat.le_of_succ_le_succ hfuel)).bind (Yields.pure _)

theorem parseProjectionList_yields {ss : List FieldSelection} (hne : ss ≠ []) :
    Yields (parseProjectionList u) ([.comma].intercalate (ss.map (·.print)) ++ .rparen :: rest) rest ss := by
  have hopens := Opens.separated hne (fun s _ => opens_selection s) .comma (.rparen :: rest)
  refine accept_else nofun (hopens.avoids rfl) (remaining_yields (selectionLoop_yields u hne ?_))
  exact (length_le_separated (fun s _ => opens_selection s) _ _).trans (Nat.le_succ _)

theorem opens_sortClause (c : SortClause) : Opens c.print := (opens_path c.field).append _

theorem parseSortDirection_yields (d : SortDirection) : Yields (parseSortDirection u) (d.print :: xs) xs d := by
  cases d with
  | asc => exact accept_then nofun (Yields.pure _)
  | desc => exact accept_else nofun (avoids_cons (by nofun)) (accept_then nofun (Yields.pure _))

/-- A sort key, before the rest of its block. -/
theorem sortClause_yields {α : Type} (c : SortClause) {k : FieldPath → SortDirection → ParseM α}
    {xs ys : List TokenType} {a : α} (h : Yields (k c.field c.direction) xs ys a) :
    Yields (do
      let field ← parseFieldPath u
      let direction ← parseSortDirection u
      k field direction) (c.print ++ xs) ys a := by
  rw [SortClause.print, List.append_assoc]
  refine (parseFieldPath_yields u c.field (avoids_cons ?_)).bind
    ((parseSortDirection_yields u c.direction).bind h)
  cases c.direction <;> nofun

theorem sortLoop_yields {cs : List SortClause} {fuel : ℕ} (hfuel : cs.length ≤ fuel) :
    Yields (sortLoop u fuel) ([.comma].intercalate (cs.map (·.print)) ++ .rbrace :: rest)
      (.rbrace :: rest) cs := by
  induction cs generalizing fuel with
  | nil =>
    cases fuel with
    | zero => exact Yields.pure []
    | succ fuel => exact loop_stops .rbrace []
  | cons c cs ih =>
    obtain _ | fuel := fuel
    · simp at hfuel
    refine loop_continues rfl nofun
      (Opens.separated (List.cons_ne_nil _ _) (fun c _ => opens_sortClause c) _ _) ?_
    cases cs with
    | nil =>
      rw [List.map_singleton, intercalate_singleton]
      refine sortClause_yields u c ?_
      exact accept_else nofun (avoids_cons (by nofun)) (check_then (Yields.pure _))
    | cons c' cs =>
      rw [List.map_cons, List.map_cons, intercalate_cons_cons, List.append_assoc]
      refine sortClause_yields u c (accept_then nofun (check_else nofun (Opens.avoids ?_ rfl) ?_))
      · exact Opens.separated (l := c' :: cs) (List.cons_ne_nil _ _) (fun c _ => opens_sortClause c) _ _
      · exact (ih (Nat.le_of_succ_le_succ hfuel)).bind (Yields.pure _)

theorem parseSortBlock_yields {cs : List SortClause} (hne : cs ≠ []) :
    Yields (parseSortBlock u)
      (.lbrace :: ([.comma].intercalate (cs.map (·.print)) ++ .rbrace :: rest)) rest cs := by
  have hopens := Opens.separated hne (fun c _ => opens_sortClause c) .comma (.rbrace :: rest)
  refine (consume_yields u (by nofun) _ _).bind
    (check_else nofun (hopens.avoids rfl) (remaining_yields ?_))
  refine (sortLoop_yields u (length_le_separated (fun c _ => opens_sortClause c) _ _)).bind ?_
  exact (consume_yields u (by nofun) _ _).bind (Yields.pure cs)

theorem parseRankingClause_yields (r : RankingClause) (hrest : Avoids .dot rest) :
    Yields (parseRankingClause u r.direction) (.integer r.count :: .by_ :: (r.field.print ++ rest)) rest r :=
  (consumeInteger_yields u _ r.count).bind ((consume_yields u (by nofun) _ _).bind
    ((parseFieldPath_yields u r.field hrest).bind (Yields.pure _)))

/-! ### Payloads -/

theorem opens_assignment (a : MutationAssignment) : Opens a.print := (opens_path a.field).append _

theorem assignmentLoop_yields (style : PayloadStyle) {as : List MutationAssignment} {fuel : ℕ}
    (hfuel : as.length ≤ fuel) {seen : List String}
    (hseen : style.rejectsDuplicates = true →
      (as.map (·.field.fullPath)).Nodup ∧ ∀ a ∈ as, a.field.fullPath ∉ seen) :
    Yields (assignmentLoop u style fuel seen)
      ([.comma].intercalate (as.map (·.print)) ++ .rparen :: rest) (.rparen :: rest) as := by
  induction as generalizing fuel seen with
  | nil =>
    cases fuel with
    | zero => exact Yields.pure []
    | succ fuel => exact loop_stops .rparen []
  | cons a as ih =>
    obtain _ | fuel := fuel
    · simp at hfuel
    have hopens := Opens.separated (List.cons_ne_nil a as) (fun a _ => opens_assignment a) .comma
      (.rparen :: rest)
    have hfirst : ∀ {k : FieldPath → LiteralValue → ParseM (List MutationAssignment)}
        {xs ys : List TokenType} {as' : List MutationAssignment}, Yields (k a.field a.value) xs ys as' →
        Yields (do
          if style.rejectsBatch && (← check .lparen) then
            parseError u "Cannot mix single-record and batch-record syntax in CREATE payload." none
          let field ← parseFieldPath u
          if style.rejectsDuplicates && field.fullPath ∈ seen then
            parseError u s!"Duplicate assignment for field '{field.fullPath}' in {style.payload}." none
          consume u .colon s!"Expected ':' after field '{field.fullPath}' in mutation assignment." [":"]
          let value ← parseLiteral u
          k field value) (a.print ++ xs) ys as' := by
      intro k xs ys as' hk
      have hfield : a.print ++ xs = a.field.print ++ (.colon :: a.value.print :: xs) := by
        simp [MutationAssignment.print]
      have havoids : Avoids .lparen (a.field.print ++ (.colon :: a.value.print :: xs)) :=
        avoids_cons (by nofun)
      have hduplicate : ¬(style.rejectsDuplicates && decide (a.field.fullPath ∈ seen)) = true := by
        intro h
        rw [Bool.and_eq_true, decide_eq_true_eq] at h
        exact (hseen h.1).2 a List.mem_cons_self h.2
      rw [hfield]
      refine (check_yields_false (by nofun) havoids).bind ?_
      refine Yields.ite_false (by simp) ((parseFieldPath_yields u a.field (avoids_cons (by nofun))).bind ?_)
      refine Yields.ite_false hduplicate ((consume_yields u (by nofun) _ _).bind ?_)
      exact (parseLiteral_yields u a.value).bind hk
    refine loop_continues rfl nofun hopens ?_
    cases as with
    | nil =>
      rw [List.map_singleton, intercalate_singleton]
      refine hfirst ?_
      exact accept_else nofun (avoids_cons (by nofun)) (check_then (Yields.pure _))
    | cons a' as =>
      rw [List.map_cons, List.map_cons, intercalate_cons_cons, List.append_assoc]
      refine hfirst (accept_then nofun (check_else nofun (Opens.avoids ?_ rfl) ?_))
      · exact Opens.separated (l := a' :: as) (List.cons_ne_nil _ _) (fun a _ => opens_assignment a) _ _
      · refine (ih (Nat.le_of_succ_le_succ hfuel) fun hstyle => ?_).bind (Yields.pure _)
        obtain ⟨hnodup, hfresh⟩ := hseen hstyle
        rw [List.map_cons, List.nodup_cons] at hnodup
        refine ⟨hnodup.2, fun b hb hmem => ?_⟩
        rcases List.mem_cons.1 hmem with heq | hmem
        · exact hnodup.1 (heq ▸ List.mem_map_of_mem hb)
        · exact hfresh b (List.mem_cons_of_mem _ hb) hmem

theorem parseCreateRecord_yields {r : CreateRecord} (hr : r.Printable) :
    Yields (parseCreateRecord u) (r.print ++ rest) rest r := by
  obtain ⟨as⟩ := r
  obtain ⟨hne, hnodup⟩ := hr
  have hopens := Opens.separated hne (fun a _ => opens_assignment a) .comma (.rparen :: rest)
  rw [CreateRecord.print, printAssignments, enclosed_append]
  refine (consume_yields u (by nofun) _ _).bind
    (check_else nofun (hopens.avoids rfl) (remaining_yields ?_))
  refine (assignmentLoop_yields u _ (length_le_separated (fun a _ => opens_assignment a) _ _)
    fun _ => ⟨hnodup, fun _ _ => List.not_mem_nil⟩).bind ?_
  exact (consume_yields u (by nofun) _ _).bind (Yields.pure _)

theorem opens_record (r : CreateRecord) : Opens r.print := opens_cons rfl

theorem batchLoop_yields {rs : List CreateRecord} (hrs : ∀ r ∈ rs, r.Printable) {fuel : ℕ}
    (hfuel : rs.length ≤ fuel) :
    Yields (batchLoop u fuel) ([.comma].intercalate (rs.map (·.print)) ++ .rparen :: rest)
      (.rparen :: rest) rs := by
  induction rs generalizing fuel with
  | nil =>
    cases fuel with
    | zero => exact Yields.pure []
    | succ fuel => exact loop_stops .rparen []
  | cons r rs ih =>
    obtain _ | fuel := fuel
    · simp at hfuel
    obtain ⟨hr, hrs⟩ := List.forall_mem_cons.1 hrs
    have hfirst : ∀ {k : CreateRecord → ParseM (List CreateRecord)} {xs ys : List TokenType}
        {rs' : List CreateRecord}, Yields (k r) xs ys rs' →
        Yields (do
          if (← get).checkIdentifier then
            parseError u "Cannot mix single-record and batch-record syntax in CREATE payload." none
          if !(← check .lparen) then
            parseError u "Expected '(' starting record in CREATE batch payload." (some ["("])
          let record ← parseCreateRecord u
          k record) (r.print ++ xs) ys rs' := fun hk =>
      get_yields (check_yields_true.bind ((parseCreateRecord_yields u hr).bind hk))
    refine loop_continues rfl nofun
      (Opens.separated (List.cons_ne_nil _ _) (fun r _ => opens_record r) _ _) ?_
    cases rs with
    | nil =>
      rw [List.map_singleton, intercalate_singleton]
      refine hfirst ?_
      exact accept_else nofun (avoids_cons (by nofun)) (check_then (Yields.pure _))
    | cons r' rs =>
      rw [List.map_cons, List.map_cons, intercalate_cons_cons, List.append_assoc]
      refine hfirst (accept_then nofun (check_else nofun (Opens.avoids ?_ rfl) ?_))
      · exact Opens.separated (l := r' :: rs) (List.cons_ne_nil _ _) (fun r _ => opens_record r) _ _
      · exact (ih hrs (Nat.le_of_succ_le_succ hfuel)).bind (Yields.pure _)

theorem parseCreatePayload_yields {rs : List CreateRecord} (hne : rs ≠ []) (hrs : ∀ r ∈ rs, r.Printable) :
    Yields (parseCreatePayload u)
      (.lparen :: ([.comma].intercalate (rs.map (·.print)) ++ .rparen :: rest)) rest rs := by
  have hopens := Opens.separated hne (fun r _ => opens_record r) .comma (.rparen :: rest)
  have hbatch : Yields (parseBatchCreateRecords u)
      ([.comma].intercalate (rs.map (·.print)) ++ .rparen :: rest) rest rs := by
    refine remaining_yields ?_
    refine (batchLoop_yields u hrs (length_le_separated (fun r _ => opens_record r) _ _)).bind ?_
    exact (consume_yields u (by nofun) _ _).bind (Yields.pure rs)
  refine (consume_yields u (by nofun) _ _).bind (check_else nofun (hopens.avoids rfl) ?_)
  obtain ⟨r, rs, rfl⟩ := List.exists_cons_of_ne_nil hne
  have hstart : ∃ xs, [.comma].intercalate ((r :: rs).map (·.print)) ++ .rparen :: rest = .lparen :: xs := by
    cases rs with
    | nil => exact ⟨_, rfl⟩
    | cons r' rs => exact ⟨_, by rw [List.map_cons, List.map_cons, intercalate_cons_cons]; rfl⟩
  obtain ⟨xs, hxs⟩ := hstart
  rw [hxs] at hbatch ⊢
  exact check_then hbatch

theorem parseMutationPayload_yields {as : List MutationAssignment} (hne : as ≠ []) :
    Yields (parseMutationPayload u) (printAssignments as ++ rest) rest as := by
  have hopens := Opens.separated hne (fun a _ => opens_assignment a) .comma (.rparen :: rest)
  rw [printAssignments, enclosed_append]
  refine (consume_yields u (by nofun) _ _).bind
    (check_else nofun (hopens.avoids rfl) (remaining_yields ?_))
  refine (assignmentLoop_yields u _ (length_le_separated (fun a _ => opens_assignment a) _ _)
    fun h => by cases h).bind ?_
  exact (consume_yields u (by nofun) _ _).bind (Yields.pure as)

/-! ### Statements -/

theorem Avoids.where_ {bad : TokenType} (h : Avoids bad rest) (hbad : TokenType.where_ ≠ bad)
    (w : Option Expression) : Avoids bad (printWhere w ++ rest) := by
  cases w with
  | none => exact h
  | some e => exact avoids_cons hbad

theorem Avoids.limit {bad : TokenType} (h : Avoids bad rest) (hbad : TokenType.limit ≠ bad)
    (n : Option ℤ) : Avoids bad (printLimit n ++ rest) := by
  cases n with
  | none => exact h
  | some n => exact avoids_cons hbad

theorem Avoids.offset {bad : TokenType} (h : Avoids bad rest) (hbad : TokenType.offset ≠ bad)
    (n : Option ℤ) : Avoids bad (printOffset n ++ rest) := by
  cases n with
  | none => exact h
  | some n => exact avoids_cons hbad

theorem Avoids.ordering {bad : TokenType} (h : Avoids bad rest) (hsort : TokenType.sort ≠ bad)
    (htop : TokenType.top ≠ bad) (hbottom : TokenType.bottom ≠ bad) (ir : AltrQueryIR) :
    Avoids bad (ir.printOrdering ++ rest) := by
  rw [AltrQueryIR.printOrdering, List.append_assoc]
  have hranking : Avoids bad (ir.ranking.elim [] (·.print) ++ rest) := by
    rcases ir.ranking with _ | ⟨_ | _, n, path⟩
    · exact h
    · exact avoids_cons htop
    · exact avoids_cons hbottom
  by_cases hs : ir.sort = []
  · rwa [hs, printSort, if_pos rfl]
  · rw [printSort, if_neg hs]
    exact avoids_cons hsort

theorem orderingLoop_stops (fuel : ℕ) (sort : Option (List SortClause)) (ranking : Option RankingClause)
    (hsort : Avoids .sort rest) (htop : Avoids .top rest) (hbottom : Avoids .bottom rest) :
    Yields (orderingLoop u fuel sort ranking) rest rest (sort, ranking) := by
  cases fuel with
  | zero => exact Yields.pure _
  | succ fuel =>
    refine check_else (by nofun) hsort ((check_yields_false (by nofun) htop).bind ?_)
    exact (check_yields_false (by nofun) hbottom).bind (Yields.pure _)

theorem orderingLoop_yields {ir : AltrQueryIR} (h : ir.sort = [] ∨ ir.ranking = none) {fuel : ℕ}
    (hfuel : 0 < fuel) (hdot : Avoids .dot rest) (hsort : Avoids .sort rest) (htop : Avoids .top rest)
    (hbottom : Avoids .bottom rest) :
    ∃ sort, sort.getD [] = ir.sort ∧
      Yields (orderingLoop u fuel none none) (ir.printOrdering ++ rest) rest (sort, ir.ranking) := by
  obtain ⟨fuel, rfl⟩ := Nat.exists_eq_add_one.2 hfuel
  have hstops := fun sort ranking => orderingLoop_stops u fuel sort ranking hsort htop hbottom
  by_cases hs : ir.sort = []
  · refine ⟨none, hs.symm, ?_⟩
    rw [AltrQueryIR.printOrdering, hs, printSort, if_pos rfl, List.nil_append]
    rcases hranking : ir.ranking with _ | ⟨_ | _, n, path⟩
    · exact orderingLoop_stops u (fuel + 1) none none hsort htop hbottom
    · refine check_else (by nofun) (avoids_cons (by nofun)) (check_yields_true.bind ?_)
      refine Yields.bind (a := false) (check_yields_false (by nofun) (avoids_cons (by nofun))) ?_
      refine check_yields_true.bind ((advance_yields (by nofun)).bind ?_)
      exact (parseRankingClause_yields u ⟨.top, n, path⟩ hdot).bind (hstops none _)
    · refine check_else (by nofun) (avoids_cons (by nofun)) ?_
      refine (check_yields_false (by nofun) (avoids_cons (by nofun))).bind (check_yields_true.bind ?_)
      refine (check_yields_false (by nofun) (avoids_cons (by nofun))).bind ((advance_yields (by nofun)).bind ?_)
      exact (parseRankingClause_yields u ⟨.bottom, n, path⟩ hdot).bind (hstops none _)
  · have hnone : ir.ranking = none := h.resolve_left hs
    refine ⟨some ir.sort, rfl, ?_⟩
    rw [AltrQueryIR.printOrdering, hnone, Option.elim_none, List.append_nil, printSort, if_neg hs,
      List.cons_append, List.cons_append, enclosed_append]
    refine check_then ((advance_yields (by nofun)).bind ?_)
    exact (parseSortBlock_yields u hs).bind (hstops _ none)

theorem windowLoop_stops (fuel : ℕ) (limit offset : Option ℤ) (hlimit : Avoids .limit rest)
    (hoffset : Avoids .offset rest) :
    Yields (windowLoop u fuel limit offset) rest rest (limit, offset) := by
  cases fuel with
  | zero => exact Yields.pure _
  | succ fuel => exact accept_else (by nofun) hlimit (accept_else (by nofun) hoffset (Yields.pure _))

theorem windowLoop_offset {fuel : ℕ} (limit offset : Option ℤ) (hfuel : 0 < fuel)
    (hlimit : Avoids .limit rest) (hoffset : Avoids .offset rest) :
    Yields (windowLoop u fuel limit none) (printOffset offset ++ rest) rest (limit, offset) := by
  obtain ⟨fuel, rfl⟩ := Nat.exists_eq_add_one.2 hfuel
  cases offset with
  | none => exact windowLoop_stops u _ limit none hlimit hoffset
  | some n =>
    refine accept_else (by nofun) (avoids_cons (by nofun)) (accept_then (by nofun) ?_)
    exact (consumeInteger_yields u _ n).bind (windowLoop_stops u fuel limit _ hlimit hoffset)

theorem windowLoop_yields {fuel : ℕ} (limit offset : Option ℤ) (hfuel : 1 < fuel)
    (hlimit : Avoids .limit rest) (hoffset : Avoids .offset rest) :
    Yields (windowLoop u fuel none none) (printLimit limit ++ (printOffset offset ++ rest)) rest
      (limit, offset) := by
  obtain ⟨fuel, rfl⟩ := Nat.exists_eq_add_one.2 (Nat.zero_lt_of_lt hfuel)
  cases limit with
  | none => exact windowLoop_offset u none offset (Nat.succ_pos _) hlimit hoffset
  | some n =>
    refine accept_then (by nofun) ((consumeInteger_yields u _ n).bind ?_)
    exact windowLoop_offset u (some n) offset (Nat.lt_of_succ_lt_succ hfuel) hlimit hoffset

theorem consumeTerminatingSemicolon_yields :
    Yields (consumeTerminatingSemicolon u) [.semicolon] [] () := rfl

theorem rejectReadClauses_yields (operation : String) :
    Yields (rejectReadClauses u operation) [.semicolon] [.semicolon] () := rfl

theorem parseGet_yields {ir : AltrQueryIR} (hread : ir.operation = .read) (h : ir.Printable) :
    Yields (parseGet u) (.identifier ir.entity :: (printProjection ir.projection ++ (printWhere ir.where_ ++
      (ir.printOrdering ++ (printLimit ir.limit ++ (printOffset ir.offset ++ [.semicolon])))))) [] ir := by
  have hsemicolon : ∀ {bad : TokenType}, TokenType.semicolon ≠ bad → Avoids bad [.semicolon] := avoids_cons
  have hwindow : ∀ {bad : TokenType}, TokenType.semicolon ≠ bad → TokenType.limit ≠ bad →
      TokenType.offset ≠ bad →
      Avoids bad (printLimit ir.limit ++ (printOffset ir.offset ++ [.semicolon])) := fun h h' h'' =>
    ((hsemicolon h).offset h'' _).limit h' _
  have hlength : 0 < (ir.printOrdering ++ (printLimit ir.limit ++
      (printOffset ir.offset ++ [TokenType.semicolon]))).length := by simp
  obtain ⟨sort, hsort, hordering⟩ := orderingLoop_yields u h.ordering hlength
    (hwindow (by rintro ⟨⟩) (by rintro ⟨⟩) (by rintro ⟨⟩)) (hwindow (by rintro ⟨⟩) (by rintro ⟨⟩) (by rintro ⟨⟩))
    (hwindow (by rintro ⟨⟩) (by rintro ⟨⟩) (by rintro ⟨⟩)) (hwindow (by rintro ⟨⟩) (by rintro ⟨⟩) (by rintro ⟨⟩))
  have hrest : Yields (do
      let where_ ← parseOptionalWhere u
      let ordering ← orderingLoop u (← remaining) none none
      let window ← windowLoop u (← remaining) none none
      consumeTerminatingSemicolon u
      return ({ operation := .read, entity := ir.entity, projection := ir.projection, where_,
                sort := ordering.1.getD [], ranking := ordering.2, limit := window.1,
                offset := window.2 } : AltrQueryIR))
      (printWhere ir.where_ ++ (ir.printOrdering ++ (printLimit ir.limit ++
        (printOffset ir.offset ++ [.semicolon])))) [] ir := by
    refine (parseOptionalWhere_yields u h.conditions ?_).bind (remaining_yields (hordering.bind ?_))
    · exact Avoids.ordering (hwindow (by rintro ⟨⟩) (by rintro ⟨⟩) (by rintro ⟨⟩)) (by rintro ⟨⟩) (by rintro ⟨⟩) (by rintro ⟨⟩) ir
    · refine remaining_yields ?_
      have hir : ({ operation := .read, entity := ir.entity, projection := ir.projection,
                    where_ := ir.where_, sort := sort.getD [], ranking := ir.ranking, limit := ir.limit,
                    offset := ir.offset } : AltrQueryIR) = ir := by
        have hstatement := h.statement
        unfold AltrQueryIR.OfStatement at hstatement
        rw [hread] at hstatement
        obtain ⟨operation, entity, projection, where_, assignments, records, sort', ranking, limit,
          offset⟩ := ir
        obtain ⟨rfl, rfl⟩ := hstatement
        cases hread
        rw [hsort]
      have hdone : Yields (do
          consumeTerminatingSemicolon u
          return ({ operation := .read, entity := ir.entity, projection := ir.projection,
                    where_ := ir.where_, sort := sort.getD [], ranking := ir.ranking, limit := ir.limit,
                    offset := ir.offset } : AltrQueryIR)) [.semicolon] [] ir := by
        rw [hir]
        exact (consumeTerminatingSemicolon_yields u).bind (Yields.pure ir)
      by_cases hempty : ir.limit = none ∧ ir.offset = none
      · rw [hempty.1, hempty.2] at hdone ⊢
        exact (windowLoop_stops u _ none none (hsemicolon (by rintro ⟨⟩)) (hsemicolon (by rintro ⟨⟩))).bind hdone
      · refine (windowLoop_yields u ir.limit ir.offset ?_ (hsemicolon (by rintro ⟨⟩)) (hsemicolon (by rintro ⟨⟩))).bind hdone
        rcases Decidable.not_and_iff_not_or_not.1 hempty with hsome | hsome
        · obtain ⟨n, hn⟩ := Option.ne_none_iff_exists'.1 hsome
          simp [hn, printLimit]
        · obtain ⟨n, hn⟩ := Option.ne_none_iff_exists'.1 hsome
          simp [hn, printOffset]
  unfold parseGet
  refine (consumeIdentifier_yields u _ ir.entity).bind ?_
  by_cases hprojection : ir.projection = []
  · rw [hprojection] at hrest ⊢
    rw [printProjection, if_pos rfl, List.nil_append]
    refine accept_else (by rintro ⟨⟩) (Avoids.where_ ?_ (by rintro ⟨⟩) _) hrest
    exact Avoids.ordering (hwindow (by rintro ⟨⟩) (by rintro ⟨⟩) (by rintro ⟨⟩)) (by rintro ⟨⟩) (by rintro ⟨⟩) (by rintro ⟨⟩) ir
  · rw [printProjection, if_neg hprojection, enclosed_append]
    exact accept_then (by rintro ⟨⟩) ((parseProjectionList_yields u hprojection).bind hrest)

theorem parseCreate_yields {ir : AltrQueryIR} (hcreate : ir.operation = .create) (h : ir.Printable) :
    Yields (parseCreate u) (.identifier ir.entity :: .lparen ::
      ([.comma].intercalate (ir.records.map (·.print)) ++ [.rparen, .semicolon])) [] ir := by
  obtain ⟨hstatement, -, -, hrecords, hne, -⟩ := h
  unfold AltrQueryIR.OfStatement at hstatement
  rw [hcreate] at hstatement
  obtain ⟨operation, entity, projection, where_, assignments, records, sort, ranking, limit, offset⟩ := ir
  cases hcreate
  obtain ⟨rfl, rfl, rfl, rfl, rfl, rfl, rfl⟩ := hstatement
  unfold parseCreate
  refine (consumeIdentifier_yields u _ entity).bind (check_yields_true.bind ?_)
  refine (parseCreatePayload_yields u (hne rfl) hrecords).bind (check_else nofun (avoids_cons (by nofun)) ?_)
  exact (rejectReadClauses_yields u _).bind ((consumeTerminatingSemicolon_yields u).bind (Yields.pure _))

theorem parseUpdate_yields {ir : AltrQueryIR} (hupdate : ir.operation = .update) (h : ir.Printable) :
    Yields (parseUpdate u) (.identifier ir.entity :: (printAssignments ir.assignments ++
      (printWhere ir.where_ ++ [.semicolon]))) [] ir := by
  obtain ⟨hstatement, -, hconditions, -, -, hne⟩ := h
  unfold AltrQueryIR.OfStatement at hstatement
  rw [hupdate] at hstatement
  obtain ⟨operation, entity, projection, where_, assignments, records, sort, ranking, limit, offset⟩ := ir
  cases hupdate
  obtain ⟨rfl, hwhere, rfl, rfl, rfl, rfl, rfl⟩ := hstatement
  obtain ⟨e, rfl⟩ := Option.ne_none_iff_exists'.1 hwhere
  unfold parseUpdate
  refine (consumeIdentifier_yields u _ entity).bind (check_yields_true.bind ?_)
  have hprint : printWhere (some e) ++ [TokenType.semicolon] =
      .where_ :: .lbrace :: (printExpression e ++ .rbrace :: [.semicolon]) := by
    simp [printWhere]
  rw [hprint]
  refine (parseMutationPayload_yields u (hne rfl)).bind ((accept_yields_true (by nofun)).bind ?_)
  refine (parseWhereBlock_yields u (hconditions e rfl) _).bind ?_
  exact (rejectReadClauses_yields u _).bind ((consumeTerminatingSemicolon_yields u).bind (Yields.pure _))

theorem parseDelete_yields {ir : AltrQueryIR} (hdelete : ir.operation = .delete) (h : ir.Printable) :
    Yields (parseDelete u) (.identifier ir.entity :: (printWhere ir.where_ ++ [.semicolon])) [] ir := by
  obtain ⟨hstatement, -, hconditions, -, -, -⟩ := h
  unfold AltrQueryIR.OfStatement at hstatement
  rw [hdelete] at hstatement
  obtain ⟨operation, entity, projection, where_, assignments, records, sort, ranking, limit, offset⟩ := ir
  cases hdelete
  obtain ⟨rfl, rfl, rfl, rfl, rfl, rfl, rfl⟩ := hstatement
  have havoids : ∀ {bad : TokenType}, TokenType.semicolon ≠ bad → Avoids bad [.semicolon] := avoids_cons
  unfold parseDelete
  refine (consumeIdentifier_yields u _ entity).bind
    (check_else nofun ((havoids (by nofun)).where_ (by nofun) _) ?_)
  refine (parseOptionalWhere_yields u hconditions (havoids (by nofun))).bind ?_
  exact (rejectReadClauses_yields u _).bind ((consumeTerminatingSemicolon_yields u).bind (Yields.pure _))

/-- The printed statement without the end of input. -/
def AltrQueryIR.printBody (ir : AltrQueryIR) : List TokenType :=
  ir.printHead ++ (ir.printOrdering ++ (printLimit ir.limit ++ (printOffset ir.offset ++ [.semicolon])))

theorem parseQuery_yields {ir : AltrQueryIR} (h : ir.Printable) :
    Yields (parseQuery u) ir.printBody [] ir := by
  have hstatement := h.statement
  unfold AltrQueryIR.OfStatement at hstatement
  unfold parseQuery AltrQueryIR.printBody AltrQueryIR.printHead
  cases hoperation : ir.operation with
  | read =>
    have hget := parseGet_yields u hoperation h
    rw [List.cons_append, List.cons_append, List.append_assoc]
    exact accept_then nofun hget
  | create =>
    have hcreate := parseCreate_yields u hoperation h
    rw [hoperation] at hstatement
    obtain ⟨-, -, -, hsort, hranking, hlimit, hoffset⟩ := hstatement
    refine accept_else nofun (avoids_cons (by nofun)) (accept_then nofun ?_)
    simpa [AltrQueryIR.printOrdering, hsort, hranking, hlimit, hoffset, printSort, printLimit, printOffset]
      using hcreate
  | update =>
    have hupdate := parseUpdate_yields u hoperation h
    rw [hoperation] at hstatement
    obtain ⟨-, -, -, hsort, hranking, hlimit, hoffset⟩ := hstatement
    refine accept_else nofun (avoids_cons (by nofun)) (accept_else nofun (avoids_cons (by nofun)) ?_)
    refine accept_then nofun ?_
    simpa [AltrQueryIR.printOrdering, hsort, hranking, hlimit, hoffset, printSort, printLimit, printOffset]
      using hupdate
  | delete =>
    have hdelete := parseDelete_yields u hoperation h
    rw [hoperation] at hstatement
    obtain ⟨-, -, -, hsort, hranking, hlimit, hoffset⟩ := hstatement
    refine accept_else nofun (avoids_cons (by nofun)) (accept_else nofun (avoids_cons (by nofun)) ?_)
    refine accept_else nofun (avoids_cons (by nofun)) (accept_then nofun ?_)
    simpa [AltrQueryIR.printOrdering, hsort, hranking, hlimit, hoffset, printSort, printLimit, printOffset]
      using hdelete

/-- A query that the grammar can spell is parsed back from its print. -/
theorem Parser.parse_print {ir : AltrQueryIR} (h : ir.Printable) :
    Parser.parse u (ir.print.map (·.token)) = .ok ir := by
  have hprint : ir.print.map (·.token) = ir.printBody.map (·.token) ++ [TokenType.eof.token] := by
    simp [AltrQueryIR.print, AltrQueryIR.printBody]
  have htokens : Parser.ofTokens (ir.print.map (·.token)) = .over ir.printBody := by
    simp [hprint, Parser.ofTokens, Parser.over]
  have hrun : (parseQuery u).run (.over ir.printBody) = .ok (ir, .over []) := parseQuery_yields u h
  rw [Parser.parse, htokens, StateT.run'_eq, hrun]
  rfl

end

end AltrStream.QueryEngine
