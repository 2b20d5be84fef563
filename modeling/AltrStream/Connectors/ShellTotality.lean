import AltrStream.Connectors.ShellGrammar

/-! # The shell parser always answers

Every iteration of the lexer consumes a character, and every call of the parser that
returns has consumed a token. The bounds on the number of calls are therefore never
reached: each text is either refused with a message or accepted.
-/
namespace AltrStream.Connectors.Shell
open Foundations Python

namespace Lexer

theorem length_skipBlank (blank : Blank) (text : List Char) :
    (skipBlank blank text).length ≤ text.length := by
  fun_induction skipBlank blank text with
  | case1 => exact le_rfl
  | case2 c rest hc ih => exact Nat.le_succ_of_le ih
  | case3 c rest hc ih => exact Nat.le_succ_of_le ih
  | case4 rest ih => exact Nat.le_succ_of_le (Nat.le_succ_of_le ih)
  | case5 c rest hc ih => exact Nat.le_succ_of_le ih
  | case6 rest ih => exact Nat.le_succ_of_le (Nat.le_succ_of_le ih)
  | case7 rest ih => exact Nat.le_succ_of_le (Nat.le_succ_of_le ih)
  | case8 c rest _ _ hspace ih => exact Nat.le_succ_of_le ih
  | case9 => exact le_rfl

section
variable {u : Unicode}

theorem length_scanChars {quote : Char} {text stop : List Char} {chars : CodePoints}
    (h : scanChars u quote text = some (chars, stop)) : stop.length ≤ text.length := by
  fun_induction scanChars u quote text generalizing chars stop with
  | case1 => cases h
  | case2 a b c d rest ih =>
    simp only [Option.bind_eq_bind, Option.bind_eq_some_iff] at h
    obtain ⟨⟨more, stop'⟩, hmore, h⟩ := h
    cases h
    have := ih hmore
    simp only [List.length_cons]
    omega
  | case3 esc rest _ ih =>
    simp only [Option.bind_eq_bind, Option.bind_eq_some_iff] at h
    obtain ⟨⟨more, stop'⟩, hmore, h⟩ := h
    cases h
    have := ih hmore
    simp only [List.length_cons]
    omega
  | case4 =>
    cases h
    exact Nat.le_succ _
  | case5 curr rest _ _ hcurr ih =>
    simp only [Option.bind_eq_bind, Option.bind_eq_some_iff] at h
    obtain ⟨⟨more, stop'⟩, hmore, h⟩ := h
    cases h
    exact Nat.le_succ_of_le (ih hmore)

theorem length_readDigits (previous : Char) (text : List Char) :
    (readDigits u previous text).2.length ≤ text.length := by
  fun_induction readDigits u previous text with
  | case1 => exact le_rfl
  | case2 => exact le_rfl
  | case3 previous c rest _ _ digits stop hread ih =>
    rw [hread] at ih
    exact Nat.le_succ_of_le ih
  | case4 => exact le_rfl

theorem length_scanOperator (sym : Char) (rest : List Char) :
    (scanOperator sym rest).2.length ≤ rest.length := by
  unfold scanOperator
  split
  · simp
  · split <;> simp

/-- A letter may stand in an identifier. -/
def LettersInNames (u : Unicode) : Prop := ∀ c, u.isalpha c → u.isalnum c

theorem length_step (hu : LettersInNames u) {ch : Char} {rest stop : List Char} {position : ℕ}
    {type : TokenType} (h : step u ch rest position = .ok (type, stop)) :
    stop.length ≤ rest.length := by
  unfold step at h
  split at h
  · cases h
    exact le_rfl
  split_ifs at h with hquote hdigit hoperator hletter
  · cases hchars : scanChars u ch rest with
    | none => rw [hchars] at h; cases h
    | some scanned =>
      rw [hchars] at h
      cases h
      exact length_scanChars hchars
  · cases hnumber : numberOf? u (readNumber u ch rest).1 with
    | none => simp [hnumber] at h
    | some value =>
      simp only [hnumber, Except.ok.injEq, Prod.mk.injEq] at h
      rw [← h.2]
      exact length_readDigits ch rest
  · cases h
    exact length_scanOperator ch rest
  · cases h
    have hch : isIdentifierChar u ch = true := by
      rcases hletter with halpha | rfl | rfl
      · simp [isIdentifierChar, hu ch halpha]
      · simp [isIdentifierChar]
      · simp [isIdentifierChar]
    rw [List.dropWhile_cons_of_pos hch]
    exact List.length_dropWhile_le _ _

/-- Tokens that end with the end of the text, which does not come earlier. -/
def Ended (tokens : List Token) : Prop :=
  ∃ body position, tokens = body ++ [⟨.eof, position⟩] ∧ ∀ token ∈ body, token.type ≠ .eof

theorem step_ne_outOfFuel {ch : Char} {rest : List Char} {position : ℕ} :
    step u ch rest position ≠ .error .outOfFuel := by
  unfold step invalidSyntax
  split
  · rintro ⟨⟩
  split_ifs
  · split <;> rintro ⟨⟩
  · simp only
    split <;> rintro ⟨⟩
  · rintro ⟨⟩
  · rintro ⟨⟩
  · rintro ⟨⟩

theorem singleToken?_ne_eof (ch : Char) : singleToken? ch ≠ some .eof := by
  unfold singleToken?
  split <;> rintro ⟨⟩

theorem type_step_ne_eof {ch : Char} {rest stop : List Char} {position : ℕ} {type : TokenType}
    (h : step u ch rest position = .ok (type, stop)) : type ≠ .eof := by
  rintro rfl
  unfold step at h
  split at h
  case h_1 type hsingle =>
    cases h
    exact singleToken?_ne_eof ch hsingle
  split_ifs at h
  · split at h <;> cases h
  · simp only at h
    split at h <;> cases h
  · cases h
  · cases h

theorem ended_of_scan {length fuel : ℕ} {text : List Char} {tokens : List Token}
    (h : scan u length fuel text = .ok tokens) : Ended tokens := by
  induction fuel generalizing text tokens with
  | zero => cases h
  | succ fuel ih =>
    rw [scan] at h
    split at h
    · cases h
      exact ⟨[], length, rfl, by simp⟩
    · obtain ⟨⟨type, stop⟩, hstep, hrest⟩ := bind_eq_ok.1 h
      obtain ⟨more, hmore, htokens⟩ := bind_eq_ok.1 hrest
      obtain ⟨body, position, rfl, hbody⟩ := ih hmore
      cases htokens
      refine ⟨_ :: body, position, rfl, List.forall_mem_cons.2 ⟨type_step_ne_eof hstep, hbody⟩⟩

/-- Enough fuel gives tokens or a message. -/
theorem scan_ne_outOfFuel (hu : LettersInNames u) {length : ℕ} (fuel : ℕ) (text : List Char)
    (hfuel : text.length < fuel) : scan u length fuel text ≠ .error .outOfFuel := by
  induction fuel generalizing text with
  | zero => omega
  | succ fuel ih =>
    rw [scan]
    have hskip := length_skipBlank .spaces text
    cases hblank : skipBlank .spaces text with
    | nil => rintro ⟨⟩
    | cons ch rest =>
      rw [hblank, List.length_cons] at hskip
      refine bind_ne_error step_ne_outOfFuel fun read hstep => ?_
      obtain ⟨type, stop⟩ := read
      have hstop := length_step hu hstep
      refine bind_ne_error (ih stop (by omega)) fun _ _ => ?_
      rintro ⟨⟩

end

end Lexer

namespace Parser

variable {β : Type} {env : Env β}

theorem length_parseValue {fuel : ℕ} {tokens rest : List Token} {v : PyValue β}
    (h : parseValue env fuel tokens = .ok (v, rest)) : rest.length < tokens.length := by
  obtain ⟨ts, rfl, hts⟩ := (sound fuel).value h
  have := List.length_pos_of_ne_nil hts.ne_nil
  rw [List.length_append]
  omega

theorem expect_ne_outOfFuel {type : TokenType} {message : String} {tokens : List Token} :
    expect type message tokens ≠ .error .outOfFuel := by
  unfold expect invalidSyntax
  split
  · split_ifs <;> rintro ⟨⟩
  · rintro ⟨⟩

theorem expectIdentifier_ne_outOfFuel {message : String} {tokens : List Token} :
    expectIdentifier message tokens ≠ .error .outOfFuel := by
  unfold expectIdentifier invalidSyntax
  split <;> rintro ⟨⟩

theorem built_ne_outOfFuel {context : String} {result : Except String β} :
    built context result ≠ .error .outOfFuel := by
  cases result <;> rintro ⟨⟩

theorem construct_ne_outOfFuel {kind : Constructor} {name : List Char} {arg : PyValue β} :
    construct env kind name arg ≠ .error .outOfFuel := by
  unfold construct wrongType
  split
  all_goals first | exact built_ne_outOfFuel | rintro ⟨⟩

/-- So much fuel is enough for the calls of the parser. -/
structure Total (env : Env β) (fuel : ℕ) : Prop where
  value : ∀ tokens, 2 * tokens.length + 1 ≤ fuel → parseValue env fuel tokens ≠ .error .outOfFuel
  pairs : ∀ entries tokens, 2 * tokens.length + 1 ≤ fuel →
    parsePairs env fuel entries tokens ≠ .error .outOfFuel
  items : ∀ items tokens, 2 * tokens.length + 2 ≤ fuel →
    parseItems env fuel items tokens ≠ .error .outOfFuel
  call : ∀ name tokens, 2 * tokens.length + 1 ≤ fuel →
    parseConstructor env fuel name tokens ≠ .error .outOfFuel

theorem total_value {fuel : ℕ} (ih : Total env fuel) {tokens : List Token}
    (hfuel : 2 * tokens.length + 1 ≤ fuel + 1) :
    parseValue env (fuel + 1) tokens ≠ .error .outOfFuel := by
  unfold parseValue
  split
  · rintro ⟨⟩
  · exact ih.pairs _ _ (by simp only [List.length_cons] at hfuel; omega)
  · rintro ⟨⟩
  · exact ih.items _ _ (by simp only [List.length_cons] at hfuel; omega)
  · rintro ⟨⟩
  · rintro ⟨⟩
  · split
    · rintro ⟨⟩
    split_ifs
    · refine bind_ne_error expectIdentifier_ne_outOfFuel fun read hread => ?_
      obtain ⟨name, rest⟩ := read
      obtain ⟨q, rfl⟩ := expectIdentifier_eq_ok.1 hread
      exact ih.call _ _ (by simp only [List.length_cons] at hfuel; omega)
    · exact ih.call _ _ (by simp only [List.length_cons] at hfuel; omega)
    · rintro ⟨⟩
  · rintro ⟨⟩

theorem total_pairs {fuel : ℕ} (ih : Total env fuel) {entries : Spec β} {tokens : List Token}
    (hfuel : 2 * tokens.length + 1 ≤ fuel + 1) :
    parsePairs env (fuel + 1) entries tokens ≠ .error .outOfFuel := by
  unfold parsePairs
  dsimp only
  split
  · rintro ⟨⟩
  refine bind_ne_error expect_ne_outOfFuel fun rest hrest => ?_
  obtain ⟨p, htail⟩ := expect_eq_ok.1 hrest
  have hlength : rest.length + 2 ≤ tokens.length := by
    have := congrArg List.length htail
    rw [List.length_tail, List.length_cons] at this
    omega
  refine bind_ne_error (ih.value rest (by omega)) fun read hread => ?_
  obtain ⟨value, rest'⟩ := read
  have := length_parseValue hread
  dsimp only
  split
  · rintro ⟨⟩
  · exact ih.pairs _ _ (by simp only [List.length_cons] at this; omega)
  · rintro ⟨⟩
  · rintro ⟨⟩

theorem total_items {fuel : ℕ} (ih : Total env fuel) {items : List (PyValue β)} {tokens : List Token}
    (hfuel : 2 * tokens.length + 2 ≤ fuel + 1) :
    parseItems env (fuel + 1) items tokens ≠ .error .outOfFuel := by
  unfold parseItems
  refine bind_ne_error (ih.value tokens (by omega)) fun read hread => ?_
  obtain ⟨value, rest⟩ := read
  have := length_parseValue hread
  dsimp only
  split
  · rintro ⟨⟩
  · exact ih.items _ _ (by simp only [List.length_cons] at this; omega)
  · rintro ⟨⟩
  · rintro ⟨⟩

theorem total_call {fuel : ℕ} (ih : Total env fuel) {name : List Char} {tokens : List Token}
    (hfuel : 2 * tokens.length + 1 ≤ fuel + 1) :
    parseConstructor env (fuel + 1) name tokens ≠ .error .outOfFuel := by
  unfold parseConstructor
  refine bind_ne_error expect_ne_outOfFuel fun rest hrest => ?_
  obtain ⟨p, rfl⟩ := expect_eq_ok.1 hrest
  rw [List.length_cons] at hfuel
  split
  · rintro ⟨⟩
  refine bind_ne_error (ih.value rest (by omega)) fun read hread => ?_
  obtain ⟨arg, rest'⟩ := read
  have := length_parseValue hread
  dsimp only
  split
  · refine bind_ne_error (ih.value _ (by simp only [List.length_cons] at this; omega)) fun _ _ => ?_
    refine bind_ne_error expect_ne_outOfFuel fun _ _ => ?_
    refine bind_ne_error built_ne_outOfFuel fun _ _ => ?_
    rintro ⟨⟩
  · refine bind_ne_error expect_ne_outOfFuel fun _ _ => ?_
    refine bind_ne_error construct_ne_outOfFuel fun _ _ => ?_
    rintro ⟨⟩

theorem total (fuel : ℕ) : Total env fuel := by
  induction fuel with
  | zero => constructor <;> intros <;> omega
  | succ fuel ih =>
    exact ⟨fun _ => total_value ih, fun _ _ => total_pairs ih, fun _ _ => total_items ih,
      fun _ _ => total_call ih⟩

/-! ### Commands -/

theorem value_ne_outOfFuel {tokens : List Token} : value env tokens ≠ .error .outOfFuel :=
  (total _).value tokens (by unfold enough; omega)

theorem document_ne_outOfFuel {what : String} {tokens : List Token} :
    document env what tokens ≠ .error .outOfFuel := by
  refine bind_ne_error value_ne_outOfFuel fun read _ => ?_
  dsimp only
  split <;> rintro ⟨⟩

theorem optional_ne_outOfFuel {α : Type} {parse : List Token → Except Stop (α × List Token)}
    (hparse : ∀ tokens, parse tokens ≠ .error .outOfFuel) (tokens : List Token) :
    optional parse tokens ≠ .error .outOfFuel := by
  unfold optional
  split
  · split_ifs
    · rintro ⟨⟩
    · next rest _ =>
      cases hrest : parse rest with
      | error e =>
        intro h
        exact hparse rest (hrest.trans (congrArg Except.error (Except.error.inj h)))
      | ok read => rintro ⟨⟩
  · rintro ⟨⟩

theorem parseFindArgs_ne_outOfFuel {tokens : List Token} :
    parseFindArgs env tokens ≠ .error .outOfFuel := by
  unfold parseFindArgs
  split_ifs
  · rintro ⟨⟩
  refine bind_ne_error document_ne_outOfFuel fun read _ => ?_
  refine bind_ne_error (optional_ne_outOfFuel (fun _ => document_ne_outOfFuel) _) fun _ _ => ?_
  rintro ⟨⟩

theorem parseInsertManyArgs_ne_outOfFuel {tokens : List Token} :
    parseInsertManyArgs env tokens ≠ .error .outOfFuel := by
  unfold parseInsertManyArgs noDocuments
  split_ifs
  · rintro ⟨⟩
  refine bind_ne_error value_ne_outOfFuel fun read _ => ?_
  dsimp only
  split
  · split
    · rintro ⟨⟩
    · refine bind_ne_error (optional_ne_outOfFuel (fun _ => value_ne_outOfFuel) _) fun _ _ => ?_
      rintro ⟨⟩
  · rintro ⟨⟩

theorem parseUpdateManyArgs_ne_outOfFuel {tokens : List Token} :
    parseUpdateManyArgs env tokens ≠ .error .outOfFuel := by
  unfold parseUpdateManyArgs noUpdate
  split_ifs
  · rintro ⟨⟩
  refine bind_ne_error document_ne_outOfFuel fun _ _ => ?_
  refine bind_ne_error expect_ne_outOfFuel fun _ _ => ?_
  refine bind_ne_error value_ne_outOfFuel fun read _ => ?_
  dsimp only
  split
  · refine bind_ne_error (optional_ne_outOfFuel (fun _ => value_ne_outOfFuel) _) fun _ _ => ?_
    rintro ⟨⟩
  · rintro ⟨⟩

theorem parseDeleteManyArgs_ne_outOfFuel {tokens : List Token} :
    parseDeleteManyArgs env tokens ≠ .error .outOfFuel := by
  unfold parseDeleteManyArgs
  split_ifs
  · rintro ⟨⟩
  refine bind_ne_error document_ne_outOfFuel fun _ _ => ?_
  rintro ⟨⟩

theorem parseArgs_ne_outOfFuel {operation : Operation} {tokens : List Token} :
    parseArgs env operation tokens ≠ .error .outOfFuel := by
  cases operation with
  | find => exact parseFindArgs_ne_outOfFuel
  | insertMany => exact parseInsertManyArgs_ne_outOfFuel
  | updateMany => exact parseUpdateManyArgs_ne_outOfFuel
  | deleteMany => exact parseDeleteManyArgs_ne_outOfFuel

theorem modifierEntry_ne_outOfFuel {key : String} {arg : PyValue β} :
    modifierEntry env key arg ≠ .error .outOfFuel := by
  unfold modifierEntry
  split
  · rintro ⟨⟩
  · rintro ⟨⟩
  · rintro ⟨⟩
  · split_ifs <;> rintro ⟨⟩

theorem parseModifiers_ne_outOfFuel {operation : Operation} {rawOp : List Char} {spec : Spec β}
    {fuel : ℕ} {tokens : List Token} (hfuel : tokens.length < fuel) :
    parseModifiers env operation rawOp fuel spec tokens ≠ .error .outOfFuel := by
  induction fuel generalizing spec tokens with
  | zero => omega
  | succ fuel ih =>
    unfold parseModifiers
    split
    · refine bind_ne_error expectIdentifier_ne_outOfFuel fun read hread => ?_
      obtain ⟨name, rest⟩ := read
      obtain ⟨p, rfl⟩ := expectIdentifier_eq_ok.1 hread
      simp only [List.length_cons] at hfuel
      dsimp only
      split_ifs
      · rintro ⟨⟩
      · refine bind_ne_error expect_ne_outOfFuel fun rest₁ hrest₁ => ?_
        obtain ⟨q, rfl⟩ := expect_eq_ok.1 hrest₁
        rw [List.length_cons] at hfuel
        refine bind_ne_error expect_ne_outOfFuel fun rest₂ hrest₂ => ?_
        obtain ⟨r, rfl⟩ := expect_eq_ok.1 hrest₂
        rw [List.length_cons] at hfuel
        exact ih (by omega)
      · refine bind_ne_error expect_ne_outOfFuel fun rest₁ hrest₁ => ?_
        obtain ⟨q, rfl⟩ := expect_eq_ok.1 hrest₁
        rw [List.length_cons] at hfuel
        refine bind_ne_error value_ne_outOfFuel fun read hread => ?_
        have harg := length_parseValue hread
        refine bind_ne_error modifierEntry_ne_outOfFuel fun entry _ => ?_
        refine bind_ne_error expect_ne_outOfFuel fun rest₂ hrest₂ => ?_
        obtain ⟨r, hclose⟩ := expect_eq_ok.1 hrest₂
        have hlength := congrArg List.length hclose
        rw [List.length_cons] at hlength
        exact ih (by omega)
      · refine bind_ne_error expect_ne_outOfFuel fun _ _ => ?_
        rintro ⟨⟩
    · rintro ⟨⟩

theorem parse_ne_outOfFuel {tokens : List Token} : parse env tokens ≠ .error .outOfFuel := by
  unfold parse
  dsimp only
  split_ifs
  · rintro ⟨⟩
  refine bind_ne_error expect_ne_outOfFuel fun _ _ => ?_
  refine bind_ne_error expectIdentifier_ne_outOfFuel fun _ _ => ?_
  refine bind_ne_error expect_ne_outOfFuel fun _ _ => ?_
  refine bind_ne_error expectIdentifier_ne_outOfFuel fun _ _ => ?_
  split
  · rintro ⟨⟩
  refine bind_ne_error expect_ne_outOfFuel fun _ _ => ?_
  refine bind_ne_error parseArgs_ne_outOfFuel fun _ _ => ?_
  refine bind_ne_error expect_ne_outOfFuel fun rest _ => ?_
  refine bind_ne_error (parseModifiers_ne_outOfFuel (by unfold enough; omega)) fun _ _ => ?_
  split_ifs <;> rintro ⟨⟩

end Parser

end AltrStream.Connectors.Shell
