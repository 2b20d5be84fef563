import AltrStream.QueryEngine.Parser
import AltrStream.QueryEngine.Printing

/-! # What the parser reads

Every production consumes tokens whose meaningful part is that of what it returns,
printed, or raises the parser's own error.
-/
namespace AltrStream.QueryEngine
open Foundations Python

/-- The types of the tokens that carry meaning. -/
def contentOf (tokens : List Token) : List TokenType := content (tokens.map (·.type))

@[simp] theorem contentOf_append (xs ys : List Token) :
    contentOf (xs ++ ys) = contentOf xs ++ contentOf ys := by
  rw [contentOf, List.map_append, content_append]
  rfl

theorem length_contentOf_le (tokens : List Token) : (contentOf tokens).length ≤ tokens.length :=
  (List.length_filter_le _ _).trans_eq (List.length_map _)

/-- A run from `p` consumes tokens whose meaning stands in the relation to the value, or raises
the parser's error. -/
def ReadsAt {α : Type} (p : Parser) (m : ParseM α) (post : List TokenType → α → Prop) : Prop :=
  match m.run p with
  | .ok (a, p') => ∃ used, p.tokens = used ++ p'.tokens ∧ p'.last = p.last ∧ post (contentOf used) a
  | .error e => e.kind = .parseError

/-- So it does from wherever it starts, in a list that the end of input closes. -/
def Reads {α : Type} (m : ParseM α) (post : List TokenType → α → Prop) : Prop :=
  ∀ p, p.last.type = .eof → ReadsAt p m post

namespace ReadsAt

variable {α β : Type} {p : Parser} {m : ParseM α} {post : List TokenType → α → Prop}

theorem pure {a : α} (h : post [] a) : ReadsAt p (Pure.pure a) post := ⟨[], rfl, rfl, h⟩

theorem bind {f : α → ParseM β} {mid : List TokenType → α → Prop} {post : List TokenType → β → Prop}
    (hm : ReadsAt p m mid)
    (hf : ∀ a p' xs, p'.last = p.last → p'.tokens.length + xs.length ≤ p.tokens.length → mid xs a →
      ReadsAt p' (f a) fun ys b => post (xs ++ ys) b) : ReadsAt p (m >>= f) post := by
  unfold ReadsAt at hm ⊢
  cases hrun : m.run p with
  | error e =>
    rw [hrun] at hm
    rw [StateT.run_bind, hrun]
    exact hm
  | ok r =>
    obtain ⟨a, p'⟩ := r
    rw [hrun] at hm
    obtain ⟨used, htokens, hlast, ha⟩ := hm
    have hlength : p'.tokens.length + (contentOf used).length ≤ p.tokens.length := by
      rw [htokens, List.length_append, Nat.add_comm]
      exact Nat.add_le_add_right (length_contentOf_le used) _
    have hrest := hf a p' (contentOf used) hlast hlength ha
    unfold ReadsAt at hrest
    rw [run_bind_ok hrun]
    cases hrun' : (f a).run p' with
    | error e =>
      rw [hrun'] at hrest
      exact hrest
    | ok r =>
      rw [hrun'] at hrest
      obtain ⟨used', htokens', hlast', hb⟩ := hrest
      refine ⟨used ++ used', ?_, hlast'.trans hlast, ?_⟩
      · rw [htokens, htokens', List.append_assoc]
      · rwa [contentOf_append]

/-- Looking at the next token consumes nothing. -/
theorem look {f : α → ParseM β} {post : List TokenType → β → Prop} {a : α}
    (hrun : m.run p = .ok (a, p)) (h : ReadsAt p (f a) post) : ReadsAt p (m >>= f) post := by
  unfold ReadsAt
  rwa [run_bind_ok hrun]

theorem mono {post' : List TokenType → α → Prop} (hm : ReadsAt p m post)
    (h : ∀ xs a, post xs a → post' xs a) : ReadsAt p m post' := by
  unfold ReadsAt at hm ⊢
  split at hm
  · obtain ⟨used, htokens, hlast, ha⟩ := hm
    exact ⟨used, htokens, hlast, h _ _ ha⟩
  · exact hm

end ReadsAt

namespace Reads

variable {α β : Type} {m : ParseM α} {post : List TokenType → α → Prop}

theorem pure {a : α} (h : post [] a) : Reads (Pure.pure a) post := fun _ _ => ReadsAt.pure h

theorem bind {f : α → ParseM β} {mid : List TokenType → α → Prop} {post : List TokenType → β → Prop}
    (hm : Reads m mid) (hf : ∀ a xs, mid xs a → Reads (f a) fun ys b => post (xs ++ ys) b) :
    Reads (m >>= f) post := fun p hp =>
  (hm p hp).bind fun a p' xs hlast _ hmid => hf a xs hmid p' (hlast ▸ hp)

theorem mono {post' : List TokenType → α → Prop} (hm : Reads m post)
    (h : ∀ xs a, post xs a → post' xs a) : Reads m post' := fun p hp => (hm p hp).mono h

theorem ite {c : Prop} [Decidable c] {m₁ m₂ : ParseM α} (h₁ : c → Reads m₁ post)
    (h₂ : ¬c → Reads m₂ post) : Reads (if c then m₁ else m₂) post := by
  by_cases h : c
  · rw [if_pos h]
    exact h₁ h
  · rw [if_neg h]
    exact h₂ h

/-- The result of a computation is put together from its value. -/
theorem map {f : α → β} {post : List TokenType → β → Prop} (hm : Reads m fun xs a => post xs (f a)) :
    Reads (f <$> m) post := by
  rw [map_eq_pure_bind]
  exact hm.bind fun a xs h => pure (by rwa [List.append_nil])

end Reads

/-! ### The primitives -/

section
variable (u : Unicode)

theorem parseError_reads {α : Type} {message : String} {expected : Option (List String)}
    {post : List TokenType → α → Prop} : Reads (parseError u message expected) post := by
  intro p _
  unfold ReadsAt
  rw [run_parseError]
  unfold unexpected
  cases intendedKeyword? u (p.peek 0) <;> rfl

end

theorem check_reads (type : TokenType) : Reads (check type) fun xs _ => xs = [] :=
  fun _ _ => ⟨[], rfl, rfl, rfl⟩

theorem isAtEnd_reads : Reads isAtEnd fun xs _ => xs = [] := fun _ _ => ⟨[], rfl, rfl, rfl⟩

theorem get_reads : Reads (get : ParseM Parser) fun xs _ => xs = [] := fun _ _ => ⟨[], rfl, rfl, rfl⟩

theorem remaining_reads : Reads remaining fun xs _ => xs = [] := fun _ _ => ⟨[], rfl, rfl, rfl⟩

/-- A token that is not the end of input is consumed. -/
theorem advance_readsAt {p : Parser} (hlast : p.last.type = .eof) {type : TokenType}
    (hpeek : (p.peek 0).type = type) (hne : type ≠ .eof) :
    ReadsAt p advance fun xs _ => xs = content [type] := by
  obtain ⟨tokens, last⟩ := p
  cases tokens with
  | nil => exact absurd (hpeek.symm.trans hlast) hne
  | cons t ts =>
    have htype : t.type = type := hpeek
    unfold ReadsAt
    rw [run_advance (by rwa [htype])]
    exact ⟨[t], rfl, rfl, by rw [contentOf, List.map_singleton, htype]⟩

/-- A token is consumed and its value returned. -/
theorem take_readsAt {α : Type} {p : Parser} (hlast : p.last.type = .eof) {type : TokenType}
    (hpeek : (p.peek 0).type = type) (hne : type ≠ .eof) {a : α} {post : List TokenType → α → Prop}
    (h : post (content [type]) a) : ReadsAt p (advance >>= fun _ => Pure.pure a) post :=
  (advance_readsAt hlast hpeek hne).bind fun _ _ xs _ _ hxs =>
    ReadsAt.pure (by rwa [List.append_nil, hxs])

theorem accept_reads {type : TokenType} (hne : type ≠ .eof) :
    Reads (accept type) fun xs b => xs = if b then content [type] else [] := by
  intro p hp
  refine ReadsAt.look (run_check p) ?_
  cases hcheck : p.check type with
  | false => exact ⟨[], rfl, rfl, rfl⟩
  | true => exact take_readsAt hp (of_decide_eq_true hcheck) hne rfl

/-- One way if the token is there, another if it is not. -/
theorem accept_ite_reads {β : Type} {type : TokenType} (hne : type ≠ .eof) {m₁ m₂ : ParseM β}
    {post : List TokenType → β → Prop} (h₁ : Reads m₁ fun ys b => post (content [type] ++ ys) b)
    (h₂ : Reads m₂ post) : Reads (accept type >>= fun b => if b = true then m₁ else m₂) post :=
  (accept_reads hne).bind fun b xs hxs => by
    cases b with
    | false =>
      subst hxs
      exact h₂
    | true =>
      subst hxs
      exact h₁

/-- One way if the token comes next, another if it does not. -/
theorem check_ite_reads {β : Type} {type : TokenType} {m₁ m₂ : ParseM β}
    {post : List TokenType → β → Prop} (h₁ : Reads m₁ post) (h₂ : Reads m₂ post) :
    Reads (check type >>= fun b => if b = true then m₁ else m₂) post :=
  (check_reads type).bind fun b xs hxs => by
    subst hxs
    exact Reads.ite (fun _ => h₁) fun _ => h₂

section
variable (u : Unicode)

theorem consume_reads {type : TokenType} (hne : type ≠ .eof) (message : String)
    (expected : List String) : Reads (consume u type message expected) fun xs _ => xs = content [type] := by
  intro p hp
  refine ReadsAt.look (run_check p) ?_
  cases hcheck : p.check type with
  | false => exact parseError_reads u p hp
  | true => exact advance_readsAt hp (of_decide_eq_true hcheck) hne

theorem consumeIdentifier_reads (message : String) :
    Reads (consumeIdentifier u message) fun xs name => xs = [.identifier name] := by
  intro p hp
  refine ReadsAt.look (a := p) rfl ?_
  cases hpeek : (p.peek 0).type with
  | identifier name => exact take_readsAt hp hpeek nofun rfl
  | _ => exact parseError_reads u p hp

theorem consumeInteger_reads (message : String) :
    Reads (consumeInteger u message) fun xs n => xs = [.integer n] := by
  intro p hp
  refine ReadsAt.look (a := p) rfl ?_
  cases hpeek : (p.peek 0).type with
  | integer n => exact take_readsAt hp hpeek nofun rfl
  | _ => exact parseError_reads u p hp

theorem parseStringLiteral_reads :
    Reads (parseStringLiteral u) fun xs l => xs = [l.print] ∧ ∃ s, l = .string s := by
  intro p hp
  refine ReadsAt.look (a := p) rfl ?_
  cases hpeek : (p.peek 0).type with
  | string s => exact take_readsAt hp hpeek nofun ⟨rfl, s, rfl⟩
  | _ => exact parseError_reads u p hp

theorem print_of_literalOf? {type : TokenType} {l : LiteralValue} (h : literalOf? type = some l) :
    l.print = type := by
  cases type <;> cases h <;> rfl

theorem isContent_print (l : LiteralValue) : l.print.isContent = true := by
  match l with
  | .string _ | .integer _ | .float _ | .null => rfl
  | .boolean true | .boolean false => rfl
  | .temporal (.keyword .today) | .temporal (.keyword .now) | .temporal (.value _) => rfl

theorem parseLiteral_reads : Reads (parseLiteral u) fun xs l => xs = [l.print] := by
  intro p hp
  refine ReadsAt.look (a := p) rfl ?_
  dsimp only
  split
  · next l hl =>
    have hprint := print_of_literalOf? hl
    refine take_readsAt hp hprint.symm ?_ (by simp [content, isContent_print])
    rintro heof
    have hcontent := isContent_print l
    rw [heof] at hcontent
    cases hcontent
  · exact parseError_reads u p hp

theorem acceptComparison_reads :
    Reads acceptComparison fun xs op? => xs = op?.elim [] fun op => [op.print] := by
  intro p hp
  refine ReadsAt.look (a := p) rfl ?_
  cases hpeek : (p.peek 0).type <;>
    first
    | exact take_readsAt hp hpeek nofun rfl
    | exact ⟨[], rfl, rfl, rfl⟩

/-! ### Paths, literals and value sets -/

theorem keys_reads (fuel : ℕ) :
    Reads (parseFieldPath.keys u fuel) fun xs keys =>
      xs = keys.flatMap fun key => [.dot, .identifier key] := by
  induction fuel with
  | zero => exact Reads.pure rfl
  | succ fuel ih =>
    unfold parseFieldPath.keys
    refine (accept_reads (by decide)).bind fun b xs hxs => Reads.ite (fun hb => ?_) fun hb => ?_
    · refine (consumeIdentifier_reads u _).bind fun key ys hys => ?_
      refine ih.bind fun keys zs hzs => Reads.pure ?_
      rw [hxs, if_pos hb, hys, hzs]
      simp [content, TokenType.isContent]
    · exact Reads.pure (by rw [hxs, if_neg hb]; rfl)

@[simp] theorem content_path (path : FieldPath) : content path.print = path.print := by
  refine List.filter_eq_self.2 fun type h => ?_
  rcases List.mem_cons.1 h with rfl | h
  · rfl
  · obtain ⟨key, -, hkey⟩ := List.mem_flatMap.1 h
    rcases List.mem_pair.1 hkey with rfl | rfl <;> rfl

theorem parseFieldPath_reads : Reads (parseFieldPath u) fun xs path => xs = path.print := by
  refine (consumeIdentifier_reads u _).bind fun root xs hxs => ?_
  refine remaining_reads.bind fun fuel ys hys => ?_
  refine (keys_reads u fuel).bind fun keys zs hzs => Reads.pure ?_
  simp [hxs, hys, hzs, FieldPath.print]

theorem parseLiteralOrRange_reads :
    Reads (parseLiteralOrRange u) fun xs r => xs = r.elim (fun l => [l.print]) Range.print := by
  refine (parseLiteral_reads u).bind fun start xs hxs => ?_
  refine (accept_reads (by decide)).bind fun b ys hys => Reads.ite (fun hb => ?_) fun hb => ?_
  · refine (parseLiteral_reads u).bind fun stop zs hzs => Reads.pure ?_
    simp [hxs, hys, hb, hzs, Range.print, content, TokenType.isContent]
  · exact Reads.pure (by simp [hxs, hys, hb])

@[simp] theorem isContent_comparison (op : ComparisonOperator) : op.print.isContent = true := by
  cases op <;> rfl

@[simp] theorem content_constraint (c : ComparisonConstraint) : content c.print = c.print := by
  simp [ComparisonConstraint.print, content, isContent_print]

@[simp] theorem content_literal (l : LiteralValue) : content [l.print] = [l.print] := by
  simp [content, isContent_print]

@[simp] theorem content_range (r : Range) : content r.print = r.print := by
  simp [Range.print, content, isContent_print, show TokenType.dotdot.isContent = true from rfl]

@[simp] theorem content_compound (cs : List ComparisonConstraint) :
    content (printCompound cs) = printCompound cs := by
  induction cs with
  | nil => rfl
  | cons c cs ih =>
    cases cs with
    | nil => rw [printCompound_singleton, content_constraint]
    | cons c' cs =>
      rw [printCompound_cons, content_append, content_cons, ih, content_constraint]
      rfl

theorem parseCompoundTail_reads (fuel : ℕ) {p : Parser} (hlast : p.last.type = .eof)
    (hfuel : p.tokens.length < fuel) :
    ReadsAt p (parseCompoundTail u fuel) fun xs cs => xs = printCompound cs ∧ cs ≠ [] := by
  induction fuel generalizing p with
  | zero => exact absurd hfuel (Nat.not_lt_zero _)
  | succ fuel ih =>
    unfold parseCompoundTail
    refine (acceptComparison_reads p hlast).bind fun op? p₁ xs hlast₁ hlength₁ hxs => ?_
    cases op? with
    | none => exact parseError_reads u p₁ (hlast₁ ▸ hlast)
    | some op =>
      subst hxs
      refine (parseLiteral_reads u p₁ (hlast₁ ▸ hlast)).bind fun value p₂ ys hlast₂ hlength₂ hys => ?_
      refine (accept_reads (by decide) p₂ (hlast₂ ▸ hlast₁ ▸ hlast)).bind
        fun b p₃ zs hlast₃ hlength₃ hzs => ?_
      subst hys
      simp only [Option.elim_some, List.length_singleton] at hlength₁ hlength₂
      cases b with
      | false => exact ReadsAt.pure ⟨by simp [hzs, printCompound_singleton, ComparisonConstraint.print], by simp⟩
      | true =>
        rw [if_pos rfl]
        refine (ih (p := p₃) (hlast₃ ▸ hlast₂ ▸ hlast₁ ▸ hlast) (by omega)).bind
          fun cs p₄ ws _ _ hws => ReadsAt.pure ⟨?_, by simp⟩
        obtain ⟨rfl, hne⟩ := hws
        obtain ⟨c, cs, rfl⟩ := List.exists_cons_of_ne_nil hne
        rw [printCompound_cons, hzs]
        simp [ComparisonConstraint.print, content, TokenType.isContent]

@[simp] theorem content_element (e : ValueSetElement) : content e.print = e.print := by
  cases e <;> simp [ValueSetElement.print]

theorem parseValueSetElement_reads : Reads (parseValueSetElement u) fun xs e => xs = e.print := by
  intro p hp
  refine (acceptComparison_reads p hp).bind fun op? p₁ xs hlast₁ _ hxs => ?_
  subst hxs
  have hp₁ : p₁.last.type = .eof := hlast₁ ▸ hp
  cases op? with
  | none =>
    refine (parseLiteralOrRange_reads u p₁ hp₁).bind fun r p₂ ys _ _ hys => ?_
    subst hys
    cases r with
    | inl l => exact ReadsAt.pure (by simp [ValueSetElement.print])
    | inr r => exact ReadsAt.pure (by simp [ValueSetElement.print])
  | some op =>
    refine (parseLiteral_reads u p₁ hp₁).bind fun value p₂ ys hlast₂ _ hys => ?_
    subst hys
    have hp₂ : p₂.last.type = .eof := hlast₂ ▸ hp₁
    refine (accept_reads (by decide) p₂ hp₂).bind fun b p₃ zs hlast₃ _ hzs => ?_
    cases b with
    | false => exact ReadsAt.pure (by simp [hzs, ValueSetElement.print, ComparisonConstraint.print])
    | true =>
      rw [if_pos rfl]
      refine ReadsAt.look (run_remaining p₃) ?_
      refine (parseCompoundTail_reads u (p₃.tokens.length + 1) (hlast₃ ▸ hp₂) (Nat.lt_succ_self _)).bind
        fun cs p₄ ws _ _ hws => ReadsAt.pure ?_
      obtain ⟨rfl, hne⟩ := hws
      obtain ⟨c, cs, rfl⟩ := List.exists_cons_of_ne_nil hne
      rw [ValueSetElement.print, printCompound_cons, hzs]
      simp [ComparisonConstraint.print, content, TokenType.isContent]

/-- A comma and a brace carry no meaning. -/
theorem accept_punctuation_reads {type : TokenType} (hne : type ≠ .eof) (h : type.isContent = false) :
    Reads (accept type) fun xs _ => xs = [] :=
  (accept_reads hne).mono fun xs b hxs => by
    rw [hxs]
    cases b <;> simp [content, h]

theorem consume_punctuation_reads {type : TokenType} (hne : type ≠ .eof)
    (h : type.isContent = false) (message : String) (expected : List String) :
    Reads (consume u type message expected) fun xs _ => xs = [] :=
  (consume_reads u hne message expected).mono fun xs _ hxs => by simp [hxs, content, h]

/-- Where the token is missing it is not consumed. -/
theorem consume_readsAt_of_check {p : Parser} {type : TokenType} (hcheck : p.check type = false)
    (message : String) (expected : List String) {post : List TokenType → Unit → Prop} (hp : p.last.type = .eof) :
    ReadsAt p (consume u type message expected) post := by
  refine ReadsAt.look (run_check p) ?_
  rw [hcheck]
  exact parseError_reads u p hp

theorem parseError_bind_reads {α β : Type} {message : String} {expected : Option (List String)}
    {f : α → ParseM β} {post : List TokenType → β → Prop} :
    Reads (parseError u message expected >>= f) post := by
  have hnever : Reads (parseError u message expected : ParseM α) fun _ _ => False := parseError_reads u
  exact hnever.bind fun _ _ h => h.elim

theorem parseValueSetElements_reads (fuel : ℕ) :
    Reads (parseValueSetElements u fuel) fun xs es => xs = es.flatMap (·.print) := by
  induction fuel with
  | zero => exact Reads.pure rfl
  | succ fuel ih =>
    unfold parseValueSetElements
    refine (check_reads _).bind fun _ _ hxs => isAtEnd_reads.bind fun _ _ hxs' => ?_
    subst hxs hxs'
    refine Reads.ite (fun _ => Reads.pure rfl) fun _ => ?_
    refine (parseValueSetElement_reads u).bind fun e _ hys => ?_
    subst hys
    refine (accept_punctuation_reads (by decide) rfl).bind fun _ _ hzs => ?_
    subst hzs
    refine Reads.ite (fun _ => ?_) fun _ => ?_
    all_goals
      refine (check_reads _).bind fun _ _ hws => ?_
      subst hws
      refine Reads.ite (fun _ => Reads.pure (by simp)) fun _ => ?_
    · exact ih.bind fun es vs hvs => Reads.pure (by simp [hvs])
    · exact parseError_reads u

theorem parseValueSet_reads : Reads (parseValueSet u) fun xs es => xs = es.flatMap (·.print) := by
  unfold parseValueSet
  refine (check_reads _).bind fun _ _ hxs => ?_
  subst hxs
  refine Reads.ite (fun _ => parseError_bind_reads u) fun _ => ?_
  refine remaining_reads.bind fun n _ hxs => ?_
  subst hxs
  refine (parseValueSetElements_reads u n).bind fun es _ hys => ?_
  refine (consume_punctuation_reads u (by decide) rfl _ _).bind fun _ _ hzs => Reads.pure ?_
  simp [hys, hzs]

/-! ### Expressions -/

@[simp] theorem content_valueSet (es : List ValueSetElement) :
    content (Operand.valueSet es).print = es.flatMap (·.print) := by
  rw [Operand.print, List.cons_append, content_cons, content_append, content_intercalate rfl,
    List.flatMap_map]
  change [] ++ (es.flatMap (fun e => content e.print) ++ []) = _
  simp

theorem parseStringOrValueSet_reads :
    Reads (parseStringOrValueSet u) fun xs o => xs = content o.print := by
  refine (accept_punctuation_reads (by decide) rfl).bind fun _ _ hxs => ?_
  subst hxs
  refine Reads.ite (fun _ => ?_) fun _ => ?_
  · exact (parseValueSet_reads u).bind fun es _ hys => Reads.pure (by simp [hys])
  · exact (parseStringLiteral_reads u).bind fun l _ hys => Reads.pure (by simp [hys.1, Operand.print])

@[simp] theorem content_operator (op : Operator) : content op.print = op.print := by
  rcases op with op | op <;> cases op <;> rfl

theorem parseOperatorAndOperand_reads :
    Reads (parseOperatorAndOperand u) fun xs r => xs = r.1.print ++ content r.2.print := by
  unfold parseOperatorAndOperand
  refine accept_ite_reads (by decide) ?starts ?_
  case starts =>
    refine (parseStringLiteral_reads u).bind fun l _ hys => Reads.pure ?_
    simp [hys.1, Operand.print, Operator.print]
    rfl
  refine accept_ite_reads (by decide) ?ends ?_
  case ends =>
    refine (parseStringLiteral_reads u).bind fun l _ hys => Reads.pure ?_
    simp [hys.1, Operand.print, Operator.print]
    rfl
  refine accept_ite_reads (by decide) ?has ?_
  case has =>
    refine (parseStringOrValueSet_reads u).bind fun o _ hys => Reads.pure ?_
    simp [hys, Operator.print]
    rfl
  refine accept_ite_reads (by decide) ?notHas ?_
  case notHas =>
    refine (consume_reads u (by decide) _ _).bind fun _ _ hys => ?_
    refine (parseStringOrValueSet_reads u).bind fun o _ hzs => Reads.pure ?_
    simp [hys, hzs, Operator.print]
    rfl
  refine acceptComparison_reads.bind fun op? _ hxs => ?_
  subst hxs
  cases op? with
  | none => exact parseError_reads u
  | some op =>
    refine (accept_punctuation_reads (by decide) rfl).bind fun _ _ hxs => ?_
    subst hxs
    refine Reads.ite (fun _ => ?valueSet) fun _ => ?single
    case valueSet =>
      refine Reads.ite (fun _ => parseError_bind_reads u) fun _ => ?_
      exact (parseValueSet_reads u).bind fun es _ hys => Reads.pure (by simp [hys, Operator.print])
    case single =>
      refine (parseLiteralOrRange_reads u).bind fun r _ hys => ?_
      subst hys
      cases r with
      | inl l => exact Reads.pure (by simp [Operator.print, Operand.print])
      | inr r => exact Reads.pure (by simp [Operator.print, Operand.print])

theorem parseAtomicFieldExpression_reads :
    Reads (parseAtomicFieldExpression u) fun xs e => xs = content (printExpression e) := by
  refine (parseFieldPath_reads u).bind fun field _ hxs => ?_
  refine (parseOperatorAndOperand_reads u).bind fun r _ hys => Reads.pure ?_
  simp [hxs, hys, printExpression, FieldExpression.print]

theorem checkOperandFollows_reads (keyword : String) :
    Reads (checkOperandFollows u keyword) fun xs _ => xs = [] := by
  refine (check_reads _).bind fun _ _ hxs => isAtEnd_reads.bind fun _ _ hys => ?_
  refine (check_reads _).bind fun _ _ hzs => ?_
  subst hxs hys hzs
  exact Reads.ite (fun _ => parseError_reads u) fun _ => Reads.pure rfl

@[simp] theorem content_and (l r : Expression) :
    content (printExpression (.and l r)) =
      content (printExpression l) ++ content (printExpression r) := by
  simp [printExpression, content, TokenType.isContent]

@[simp] theorem content_or (l r : Expression) :
    content (printExpression (.or l r)) =
      content (printExpression l) ++ .or :: content (printExpression r) := by
  simp [printExpression, content, TokenType.isContent]

@[simp] theorem content_not (e : Expression) :
    content (printExpression (.not e)) = .not :: content (printExpression e) := by
  simp [printExpression, content, TokenType.isContent]

section
variable {parseNot : ParseM Expression}
  (hNot : Reads parseNot fun xs e => xs = content (printExpression e))
include hNot

theorem andLoop_reads (fuel : ℕ) (expr : Expression) :
    Reads (andLoop u parseNot fuel expr) fun xs e =>
      content (printExpression expr) ++ xs = content (printExpression e) := by
  induction fuel generalizing expr with
  | zero => exact Reads.pure (List.append_nil _)
  | succ fuel ih =>
    have hright : Reads (parseNot >>= fun right => andLoop u parseNot fuel (.and expr right)) fun xs e =>
        content (printExpression expr) ++ xs = content (printExpression e) := by
      refine hNot.bind fun right _ hxs => (ih (.and expr right)).mono fun xs e h => ?_
      rw [← h, content_and, hxs, List.append_assoc]
    unfold andLoop
    refine accept_ite_reads (by decide) ?_ fun p hp => ReadsAt.look (run_check p) ?_
    · exact (checkOperandFollows_reads u _).bind fun _ _ hxs => by
        subst hxs
        exact hright
    · cases hcheck : p.check .comma with
      | false => exact ReadsAt.pure (List.append_nil _)
      | true =>
        refine ReadsAt.look (a := p) rfl ?_
        dsimp only
        split
        · exact parseError_bind_reads u p hp
        · refine (advance_readsAt hp (of_decide_eq_true hcheck) (by decide)).bind
            fun _ p' xs hlast _ hxs => ?_
          subst hxs
          exact hright p' (hlast ▸ hp)

theorem parseAnd_reads : Reads (parseAnd u parseNot) fun xs e => xs = content (printExpression e) := by
  refine hNot.bind fun e _ hxs => remaining_reads.bind fun n _ hys => ?_
  subst hxs hys
  exact (andLoop_reads u hNot n e).mono fun xs e h => by simpa using h

theorem orLoop_reads (fuel : ℕ) (expr : Expression) :
    Reads (orLoop u parseNot fuel expr) fun xs e =>
      content (printExpression expr) ++ xs = content (printExpression e) := by
  induction fuel generalizing expr with
  | zero => exact Reads.pure (List.append_nil _)
  | succ fuel ih =>
    unfold orLoop
    refine accept_ite_reads (by decide) ?_ (Reads.pure (List.append_nil _))
    refine (checkOperandFollows_reads u _).bind fun _ _ hxs => ?_
    refine (parseAnd_reads u hNot).bind fun right _ hys => ?_
    subst hxs hys
    refine (ih (.or expr right)).mono fun xs e h => ?_
    rw [← h, content_or, List.append_assoc]
    rfl

theorem parseOr_reads : Reads (parseOr u parseNot) fun xs e => xs = content (printExpression e) := by
  refine (parseAnd_reads u hNot).bind fun e _ hxs => remaining_reads.bind fun n _ hys => ?_
  subst hxs hys
  exact (orLoop_reads u hNot n e).mono fun xs e h => by simpa using h

theorem parsePrimary_reads :
    Reads (parsePrimary u parseNot) fun xs e => xs = content (printExpression e) := by
  unfold parsePrimary
  refine (accept_punctuation_reads (by decide) rfl).bind fun _ _ hxs => ?_
  subst hxs
  refine Reads.ite (fun _ => ?group) fun _ => ?leaf
  case group =>
    refine (check_reads _).bind fun _ _ hys => ?_
    subst hys
    refine Reads.ite (fun _ => parseError_bind_reads u) fun _ => ?_
    refine hNot.bind fun inner _ hzs => ?_
    refine (consume_punctuation_reads u (by decide) rfl _ _).bind fun _ _ hws => Reads.pure ?_
    simp [hzs, hws]
  case leaf =>
    refine get_reads.bind fun _ _ hys => ?_
    subst hys
    exact Reads.ite (fun _ => parseAtomicFieldExpression_reads u) fun _ => parseError_reads u

end

theorem parseNot_reads (fuel : ℕ) :
    Reads (parseNot u fuel) fun xs e => xs = content (printExpression e) := by
  induction fuel with
  | zero => exact parseError_reads u
  | succ fuel ih =>
    unfold parseNot
    refine accept_ite_reads (by decide) ?_ (parsePrimary_reads u (parseOr_reads u ih))
    refine (checkOperandFollows_reads u _).bind fun _ _ hxs => ?_
    refine ih.bind fun e _ hys => Reads.pure ?_
    subst hxs hys
    rw [content_not, List.append_nil]
    rfl

theorem parseOrExpression_reads :
    Reads (parseOrExpression u) fun xs e => xs = content (printExpression e) :=
  remaining_reads.bind fun n _ hxs => by
    subst hxs
    exact parseOr_reads u (parseNot_reads u n)

theorem whereLoop_reads (fuel : ℕ) :
    Reads (whereLoop u fuel) fun xs es => xs = es.flatMap fun e => content (printExpression e) := by
  induction fuel with
  | zero => exact Reads.pure rfl
  | succ fuel ih =>
    unfold whereLoop
    refine (check_reads _).bind fun _ _ hxs => isAtEnd_reads.bind fun _ _ hxs' => ?_
    subst hxs hxs'
    refine Reads.ite (fun _ => Reads.pure rfl) fun _ => ?_
    refine (parseOrExpression_reads u).bind fun e _ hys => ?_
    subst hys
    refine (accept_punctuation_reads (by decide) rfl).bind fun _ _ hzs => ?_
    subst hzs
    refine Reads.ite (fun _ => ?_) fun _ => ?_
    all_goals
      refine (check_reads _).bind fun _ _ hws => ?_
      subst hws
      refine Reads.ite (fun _ => Reads.pure (by simp)) fun _ => ?_
      exact ih.bind fun es _ hvs => Reads.pure (by simp [hvs])

theorem content_foldl_and (first : Expression) (rest : List Expression) :
    content (printExpression (rest.foldl .and first)) =
      content (printExpression first) ++ rest.flatMap fun e => content (printExpression e) := by
  induction rest generalizing first with
  | nil => simp
  | cons e rest ih => rw [List.foldl_cons, ih, content_and, List.flatMap_cons, List.append_assoc]

theorem parseWhereBlock_reads :
    Reads (parseWhereBlock u) fun xs e => xs = content (printExpression e) := by
  unfold parseWhereBlock
  refine (consume_punctuation_reads u (by decide) rfl _ _).bind fun _ _ hxs => ?_
  refine (check_reads _).bind fun _ _ hys => ?_
  subst hxs hys
  refine Reads.ite (fun _ => parseError_bind_reads u) fun _ => ?_
  refine remaining_reads.bind fun n _ hxs => ?_
  refine (whereLoop_reads u n).bind fun es _ hys => ?_
  refine (consume_punctuation_reads u (by decide) rfl _ _).bind fun _ _ hzs => ?_
  subst hxs hys hzs
  cases es with
  | nil => exact parseError_reads u
  | cons first rest => exact Reads.pure (by simp [content_foldl_and])

theorem parseOptionalWhere_reads :
    Reads (parseOptionalWhere u) fun xs w => xs = content (printWhere w) := by
  refine accept_ite_reads (by decide) (Reads.map ?_) (Reads.pure rfl)
  refine (parseWhereBlock_reads u).mono fun xs e hxs => ?_
  subst hxs
  simp [printWhere, content, TokenType.isContent]

/-! ### Projections, sorting and ranking -/

@[simp] theorem content_selection (s : FieldSelection) : content s.print = s.print := by
  obtain ⟨path, _ | name⟩ := s
  · simp [FieldSelection.print]
  · simp only [FieldSelection.print, content_append, content_path, Option.elim_some]
    rfl

theorem selectionLoop_reads (fuel : ℕ) :
    Reads (selectionLoop u fuel) fun xs ss => xs = ss.flatMap (·.print) := by
  induction fuel with
  | zero => exact Reads.pure rfl
  | succ fuel ih =>
    unfold selectionLoop
    refine (parseFieldPath_reads u).bind fun path _ hxs => ?_
    subst hxs
    have hrest : ∀ name? : Option String, Reads (do
        if ← accept .comma then
          if ← check .rparen then parseError u "Unexpected trailing comma in projection list." none
          return (⟨path, name?⟩ : FieldSelection) :: (← selectionLoop u fuel)
        if ← accept .rparen then return [⟨path, name?⟩]
        parseError u "Expected ',' or ')' in projection list." (some [",", ")"]))
        fun xs ss => (⟨path, name?⟩ : FieldSelection).print ++ xs = ss.flatMap (·.print) := by
      intro name?
      refine (accept_punctuation_reads (by decide) rfl).bind fun _ _ hzs => ?_
      subst hzs
      refine Reads.ite (fun _ => ?_) fun _ => ?_
      · refine (check_reads _).bind fun _ _ hws => ?_
        subst hws
        refine Reads.ite (fun _ => parseError_bind_reads u) fun _ => ?_
        exact ih.bind fun ss _ hvs => Reads.pure (by simp [hvs])
      · refine (accept_punctuation_reads (by decide) rfl).bind fun _ _ hws => ?_
        subst hws
        exact Reads.ite (fun _ => Reads.pure (by simp)) fun _ => parseError_reads u
    have hname : Reads (some <$> consumeIdentifier u "Expected alias identifier after 'AS'.")
        fun xs name? => content [.as_] ++ xs = name?.elim [] fun name => [.as_, .identifier name] :=
      Reads.map ((consumeIdentifier_reads u _).mono fun xs name hxs => by rw [hxs]; rfl)
    refine accept_ite_reads (by decide) ?_ ?_
    · refine hname.bind fun name? ys hys => (hrest name?).mono fun xs ss h => ?_
      rw [← h, FieldSelection.print, ← hys]
      simp
    · rw [pure_bind]
      exact (hrest none).mono fun xs ss h => by simpa [FieldSelection.print] using h

theorem parseProjectionList_reads :
    Reads (parseProjectionList u) fun xs ss => xs = ss.flatMap (·.print) := by
  refine (accept_punctuation_reads (by decide) rfl).bind fun _ _ hxs => ?_
  subst hxs
  refine Reads.ite (fun _ => Reads.pure rfl) fun _ => remaining_reads.bind fun n _ hys => ?_
  subst hys
  exact selectionLoop_reads u (n + 1)

@[simp] theorem content_sortClause (c : SortClause) : content c.print = c.print := by
  obtain ⟨field, _ | _⟩ := c
  all_goals
    rw [SortClause.print, content_append, content_path]
    rfl

/-- One clause and those after it. -/
theorem sortClause_reads {fuel : ℕ}
    (ih : Reads (sortLoop u fuel) fun xs cs => xs = cs.flatMap (·.print)) :
    Reads (do
      let field ← parseFieldPath u
      let direction ← parseSortDirection u
      if ← accept .comma then
        if ← check .rbrace then return [⟨field, direction⟩]
        return ⟨field, direction⟩ :: (← sortLoop u fuel)
      if ← check .rbrace then return [⟨field, direction⟩]
      if (← get).checkIdentifier then return ⟨field, direction⟩ :: (← sortLoop u fuel)
      parseError u "Expected ',' or '\x7d' in SORT block." (some [",", "\x7d"]))
      fun xs cs => xs = cs.flatMap (·.print) ∧ cs ≠ [] := by
  have hdirection : Reads (parseSortDirection u) fun xs d => xs = [d.print] :=
    accept_ite_reads (by decide) (Reads.pure rfl)
      (accept_ite_reads (by decide) (Reads.pure rfl) (parseError_reads u))
  refine (parseFieldPath_reads u).bind fun field _ hxs => ?_
  refine hdirection.bind fun direction _ hys => ?_
  subst hxs hys
  have hmore : Reads (do return (⟨field, direction⟩ : SortClause) :: (← sortLoop u fuel)) fun xs cs =>
      field.print ++ ([direction.print] ++ ([] ++ xs)) = cs.flatMap (·.print) ∧ cs ≠ [] :=
    ih.bind fun cs _ hws => Reads.pure ⟨by simp [hws, SortClause.print], by simp⟩
  have hone : Reads (Pure.pure [(⟨field, direction⟩ : SortClause)]) fun xs cs =>
      field.print ++ ([direction.print] ++ ([] ++ xs)) = cs.flatMap (·.print) ∧ cs ≠ [] :=
    Reads.pure ⟨by simp [SortClause.print], by simp⟩
  refine (accept_punctuation_reads (by decide) rfl).bind fun _ _ hzs => ?_
  subst hzs
  refine Reads.ite (fun _ => check_ite_reads hone hmore) fun _ => check_ite_reads hone ?_
  refine get_reads.bind fun _ _ hws => ?_
  subst hws
  exact Reads.ite (fun _ => hmore) fun _ => parseError_reads u

theorem sortLoop_reads (fuel : ℕ) :
    Reads (sortLoop u fuel) fun xs cs => xs = cs.flatMap (·.print) := by
  induction fuel with
  | zero => exact Reads.pure rfl
  | succ fuel ih =>
    unfold sortLoop
    refine (check_reads _).bind fun _ _ hxs => isAtEnd_reads.bind fun _ _ hys => ?_
    subst hxs hys
    refine Reads.ite (fun _ => Reads.pure rfl) fun _ => ?_
    exact (sortClause_reads u ih).mono fun xs cs h => h.1

theorem parseSortBlock_reads :
    Reads (parseSortBlock u) fun xs cs => xs = cs.flatMap (·.print) ∧ cs ≠ [] := by
  unfold parseSortBlock
  refine (consume_punctuation_reads u (by decide) rfl _ _).bind fun _ _ hxs => ?_
  subst hxs
  intro p hp
  refine ReadsAt.look (run_check p) ?_
  cases hcheck : p.check .rbrace with
  | true => exact parseError_bind_reads u p hp
  | false =>
    dsimp only
    rw [if_neg Bool.false_ne_true]
    refine ReadsAt.look (run_remaining p) ?_
    have hclose : ∀ {p' : Parser} (_ : p'.last.type = .eof) (cs : List SortClause), cs ≠ [] →
        ReadsAt p' (do
          consume u .rbrace "Expected '\x7d' closing SORT block." ["\x7d"]
          return cs) fun xs cs' => cs.flatMap (·.print) ++ xs = cs'.flatMap (·.print) ∧ cs' ≠ [] :=
      fun hp' cs hne => (consume_punctuation_reads u (by decide) rfl _ _ _ hp').bind
        fun _ _ _ _ _ hxs => ReadsAt.pure ⟨by simp [hxs], hne⟩
    have hmissing : ReadsAt p (consume u .rbrace "Expected '\x7d' closing SORT block." ["\x7d"])
        fun _ _ => False := consume_readsAt_of_check u hcheck _ _ hp
    obtain ⟨tokens, last⟩ := p
    cases tokens with
    | nil => exact ReadsAt.look (a := []) rfl (hmissing.bind fun _ _ _ _ _ h => h.elim)
    | cons t ts =>
      by_cases hend : t.type = .eof
      · -- the block breaks off, and its brace is missed
        have hrun : (sortLoop u (t :: ts).length).run ⟨t :: ts, last⟩ = .ok ([], ⟨t :: ts, last⟩) := by
          rw [List.length_cons, sortLoop, run_bind_ok (run_check _), hcheck,
            run_bind_ok (a := true) (by rw [← decide_eq_true hend]; rfl)]
          rfl
        exact ReadsAt.look hrun (hmissing.bind fun _ _ _ _ _ h => h.elim)
      · have hloop : ReadsAt ⟨t :: ts, last⟩ (sortLoop u (t :: ts).length)
            fun xs cs => xs = cs.flatMap (·.print) ∧ cs ≠ [] := by
          rw [List.length_cons, sortLoop]
          refine ReadsAt.look (run_check _) (ReadsAt.look (run_isAtEnd_of_ne hend) ?_)
          rw [hcheck, Bool.or_false, if_neg Bool.false_ne_true]
          exact sortClause_reads u (sortLoop_reads u ts.length) _ hp
        refine hloop.bind fun cs p' xs hlast _ hxs => ?_
        obtain ⟨rfl, hne⟩ := hxs
        exact hclose (hlast ▸ hp) cs hne

theorem parseRankingClause_reads (direction : RankingDirection) :
    Reads (parseRankingClause u direction) fun xs r => direction.print :: xs = r.print := by
  refine (consumeInteger_reads u _).bind fun n _ hxs => ?_
  refine (consume_reads u (by decide) _ _).bind fun _ _ hys => ?_
  refine (parseFieldPath_reads u).bind fun path _ hzs => Reads.pure ?_
  subst hxs hys hzs
  simp [RankingClause.print, content, TokenType.isContent]

/-! ### Payloads -/

@[simp] theorem content_assignment (a : MutationAssignment) : content a.print = a.print := by
  rw [MutationAssignment.print, content_append, content_path, content_cons, content_literal]
  rfl

theorem assignmentLoop_reads (style : PayloadStyle) (fuel : ℕ) (seen : List String) :
    Reads (assignmentLoop u style fuel seen) fun xs as => xs = as.flatMap (·.print) := by
  induction fuel generalizing seen with
  | zero => exact Reads.pure rfl
  | succ fuel ih =>
    have hone : ∀ field : FieldPath, Reads (do
        consume u .colon s!"Expected ':' after field '{field.fullPath}' in mutation assignment." [":"]
        let value ← parseLiteral u
        if ← accept .comma then
          if ← check .rparen then
            parseError u s!"Unexpected trailing comma in {style.payload}." none
          return (⟨field, value⟩ : MutationAssignment) ::
            (← assignmentLoop u style fuel (field.fullPath :: seen))
        if ← check .rparen then return [⟨field, value⟩]
        parseError u s!"Expected ',' or ')' in {style.payload}." (some [",", ")"]))
        fun xs as => field.print ++ xs = as.flatMap (·.print) := by
      intro field
      refine (consume_reads u (by decide) _ _).bind fun _ _ hxs => ?_
      refine (parseLiteral_reads u).bind fun value _ hys => ?_
      refine (accept_punctuation_reads (by decide) rfl).bind fun _ _ hzs => ?_
      have hcolon : content [.colon] = [.colon] := rfl
      subst hxs hys hzs
      refine Reads.ite (fun _ => check_ite_reads ?_ ?_) fun _ => check_ite_reads ?_ (parseError_reads u)
      · exact parseError_bind_reads u
      · exact (ih _).bind fun as _ hws => Reads.pure (by simp [hws, MutationAssignment.print, hcolon])
      · exact Reads.pure (by simp [MutationAssignment.print, hcolon])
    unfold assignmentLoop
    refine (check_reads _).bind fun _ _ hxs => isAtEnd_reads.bind fun _ _ hys => ?_
    subst hxs hys
    refine Reads.ite (fun _ => Reads.pure rfl) fun _ => (check_reads _).bind fun _ _ hxs => ?_
    subst hxs
    refine Reads.ite (fun _ => parseError_bind_reads u) fun _ => ?_
    refine (parseFieldPath_reads u).bind fun field _ hxs => ?_
    subst hxs
    exact Reads.ite (fun _ => parseError_bind_reads u) fun _ => hone field

@[simp] theorem content_assignments (as : List MutationAssignment) :
    content (printAssignments as) = as.flatMap (·.print) := by
  rw [printAssignments, List.cons_append, content_cons, content_append, content_intercalate rfl,
    List.flatMap_map]
  change [] ++ (as.flatMap (fun a => content a.print) ++ []) = _
  simp

@[simp] theorem content_record (r : CreateRecord) : content r.print = r.assignments.flatMap (·.print) :=
  content_assignments r.assignments

theorem parseSingleCreateRecord_reads :
    Reads (parseSingleCreateRecord u) fun xs rs => xs = rs.flatMap fun r => content r.print := by
  refine remaining_reads.bind fun n _ hxs => (assignmentLoop_reads u _ n []).bind fun as _ hys => ?_
  refine (consume_punctuation_reads u (by decide) rfl _ _).bind fun _ _ hzs => Reads.pure ?_
  simp [hxs, hys, hzs]

theorem parseCreateRecord_reads : Reads (parseCreateRecord u) fun xs r => xs = content r.print := by
  unfold parseCreateRecord
  refine (consume_punctuation_reads u (by decide) rfl _ _).bind fun _ _ hxs => ?_
  subst hxs
  refine check_ite_reads (parseError_bind_reads u) ?_
  refine remaining_reads.bind fun n _ hxs => (assignmentLoop_reads u _ n []).bind fun as _ hys => ?_
  refine (consume_punctuation_reads u (by decide) rfl _ _).bind fun _ _ hzs => Reads.pure ?_
  simp [hxs, hys, hzs]

theorem batchLoop_reads (fuel : ℕ) :
    Reads (batchLoop u fuel) fun xs rs => xs = rs.flatMap fun r => content r.print := by
  induction fuel with
  | zero => exact Reads.pure rfl
  | succ fuel ih =>
    have hrecord : Reads (do
        let record ← parseCreateRecord u
        if ← accept .comma then
          if ← check .rparen then
            parseError u "Unexpected trailing comma in CREATE batch payload." none
          return record :: (← batchLoop u fuel)
        if ← check .rparen then return [record]
        if ← check .lparen then
          parseError u "Expected ',' between records in CREATE batch payload." (some [","])
        parseError u "Expected ',' or ')' in CREATE batch payload." (some [",", ")"]))
        fun xs rs => xs = rs.flatMap fun r => content r.print := by
      refine (parseCreateRecord_reads u).bind fun r _ hxs => ?_
      refine (accept_punctuation_reads (by decide) rfl).bind fun _ _ hys => ?_
      subst hxs hys
      refine Reads.ite (fun _ => check_ite_reads (parseError_bind_reads u) ?_) fun _ => ?_
      · exact ih.bind fun rs _ hzs => Reads.pure (by simp [hzs])
      · refine check_ite_reads (Reads.pure (by simp)) (check_ite_reads (parseError_bind_reads u) ?_)
        exact parseError_reads u
    unfold batchLoop
    refine (check_reads _).bind fun _ _ hxs => isAtEnd_reads.bind fun _ _ hys => ?_
    subst hxs hys
    refine Reads.ite (fun _ => Reads.pure rfl) fun _ => get_reads.bind fun _ _ hxs => ?_
    subst hxs
    refine Reads.ite (fun _ => parseError_bind_reads u) fun _ => (check_reads _).bind fun _ _ hxs => ?_
    subst hxs
    exact Reads.ite (fun _ => parseError_bind_reads u) fun _ => hrecord

theorem parseCreatePayload_reads :
    Reads (parseCreatePayload u) fun xs rs => xs = rs.flatMap fun r => content r.print := by
  have hbatch : Reads (parseBatchCreateRecords u) fun xs rs => xs = rs.flatMap fun r => content r.print := by
    refine remaining_reads.bind fun n _ hxs => (batchLoop_reads u n).bind fun rs _ hys => ?_
    refine (consume_punctuation_reads u (by decide) rfl _ _).bind fun _ _ hzs => Reads.pure ?_
    simp [hxs, hys, hzs]
  unfold parseCreatePayload
  refine (consume_punctuation_reads u (by decide) rfl _ _).bind fun _ _ hxs => ?_
  subst hxs
  refine check_ite_reads (parseError_bind_reads u) (check_ite_reads hbatch ?_)
  refine get_reads.bind fun _ _ hxs => ?_
  subst hxs
  exact Reads.ite (fun _ => parseSingleCreateRecord_reads u) fun _ => parseError_reads u

theorem parseMutationPayload_reads :
    Reads (parseMutationPayload u) fun xs as => xs = as.flatMap (·.print) := by
  unfold parseMutationPayload
  refine (consume_punctuation_reads u (by decide) rfl _ _).bind fun _ _ hxs => ?_
  subst hxs
  refine check_ite_reads (parseError_bind_reads u) ?_
  refine remaining_reads.bind fun n _ hxs => (assignmentLoop_reads u _ n []).bind fun as _ hys => ?_
  refine (consume_punctuation_reads u (by decide) rfl _ _).bind fun _ _ hzs => Reads.pure ?_
  simp [hxs, hys, hzs]

end

end AltrStream.QueryEngine
