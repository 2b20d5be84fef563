import AltrStream.Connectors.ShellTotality
import AltrStream.QueryEngine.Lossless

/-! # The commands of MongoDB's shell syntax

The grammar of a whole query: the collection, the operation with its arguments, the
modifiers of a search and semicolons, up to the end of the text. What the parser accepts
is such a query, and its parameters are those that the grammar reads off the tokens.
-/
namespace AltrStream.Connectors.Shell
open Foundations Python Shell.Parser

section
variable {β : Type} (env : Env β)

/-- Whatever stands between an argument and the closing parenthesis: the next argument, perhaps
only the comma in front of it. -/
inductive Tail : Option (PyValue β) → List Token → Prop
  | none : Tail none []
  | comma {p : ℕ} : Tail none [⟨.comma, p⟩]
  | argument {arg : PyValue β} {ts : List Token} {p : ℕ} (harg : Spells env (.value arg) ts) :
      Tail (some arg) (⟨.comma, p⟩ :: ts)

/-- The arguments of an operation, and the parameters that it takes from them. -/
inductive Arguments : Operation → Spec β → List Token → Prop
  | findAll : Arguments .find [(codePoints "filter", .dict [])] []
  | find {filter : Spec β} {projection : Option (Spec β)} {ts more : List Token}
      (hfilter : Spells env (.value (.dict filter)) ts)
      (hmore : Tail env (projection.map .dict) more) :
      Arguments .find ((codePoints "filter", .dict filter) ::
        (projection.map fun p => (codePoints "projection", .dict p)).toList) (ts ++ more)
  | insertMany {docs : List (Spec β)} {options : Option (PyValue β)} {ts more : List Token}
      (hdocs : Spells env (.value (.list (docs.map .dict))) ts) (hsome : docs ≠ [])
      (hmore : Tail env options more) :
      Arguments .insertMany [(codePoints "documents", .list (docs.map .dict)),
        (codePoints "ordered", .bool ((optionOf "ordered" options).getD true))] (ts ++ more)
  | updateMany {filter update : Spec β} {options : Option (PyValue β)} {ts ts' more : List Token}
      {p : ℕ} (hfilter : Spells env (.value (.dict filter)) ts)
      (hupdate : Spells env (.value (.dict update)) ts') (hsome : update ≠ [])
      (hmore : Tail env options more) :
      Arguments .updateMany
        ((codePoints "filter", .dict filter) :: (codePoints "update", .dict update) ::
          ((optionOf "upsert" options).map fun b => (codePoints "upsert", .bool b)).toList)
        (ts ++ ⟨.comma, p⟩ :: (ts' ++ more))
  | deleteMany {filter : Spec β} {ts : List Token} (hfilter : Spells env (.value (.dict filter)) ts) :
      Arguments .deleteMany [(codePoints "filter", .dict filter)] ts

/-- What the modifier of that name takes as its argument. -/
def Allowed (key : String) (arg : PyValue β) : Prop :=
  (key = "sort" ∧ ((∃ entries, arg = .dict entries) ∨ ∃ items, arg = .list items)) ∨
    ((key = "skip" ∨ key = "limit") ∧ isCount arg = true)

/-- Modifiers one after the other, with the parameters that they assign. -/
inductive Modifiers : List (CodePoints × PyValue β) → List Token → Prop
  | none : Modifiers [] []
  | pretty {name : List Char} {entries : List (CodePoints × PyValue β)} {more : List Token}
      {p q r s : ℕ} (hname : env.unicode.lower (String.ofList name) = "pretty")
      (hmore : Modifiers entries more) :
      Modifiers entries
        (⟨.dot, p⟩ :: ⟨.identifier name, q⟩ :: ⟨.lparen, r⟩ :: ⟨.rparen, s⟩ :: more)
  | entry {name : List Char} {key : String} {arg : PyValue β}
      {entries : List (CodePoints × PyValue β)} {ts more : List Token} {p q r s : ℕ}
      (hname : env.unicode.lower (String.ofList name) = key) (hallowed : Allowed key arg)
      (harg : Spells env (.value arg) ts) (hmore : Modifiers entries more) :
      Modifiers ((codePoints key, arg) :: entries)
        (⟨.dot, p⟩ :: ⟨.identifier name, q⟩ :: ⟨.lparen, r⟩ :: (ts ++ ⟨.rparen, s⟩ :: more))

/-- The tokens are a whole query for that operation with those parameters. -/
inductive Written : List Token → Operation → Spec β → Prop
  | query {collection rawOp : List Char} {operation : Operation} {args : Spec β}
      {entries : List (CodePoints × PyValue β)} {ts modifiers semicolons : List Token}
      {p₁ p₂ p₃ p₄ p₅ p₆ p₇ p₈ : ℕ}
      (hoperation : operationOf? (env.unicode.lower (String.ofList rawOp)) = some operation)
      (hargs : Arguments env operation args ts) (hmodifiers : Modifiers env entries modifiers)
      (hread : operation ≠ .find → modifiers = [])
      (hsemicolons : ∀ token ∈ semicolons, token.type = .semicolon) :
      Written
        (⟨.identifier ['d', 'b'], p₁⟩ :: ⟨.dot, p₂⟩ :: ⟨.identifier collection, p₃⟩ :: ⟨.dot, p₄⟩ ::
          ⟨.identifier rawOp, p₅⟩ :: ⟨.lparen, p₆⟩ ::
          (ts ++ ⟨.rparen, p₇⟩ :: (modifiers ++ (semicolons ++ [⟨.eof, p₈⟩]))))
        operation
        (Dict.update ((codePoints "collection", .str (collection.map Char.toNat)) :: args) entries)

variable {env}

/-! ### What the parser accepts is written -/

theorem spells_of_document {what : String} {tokens rest : List Token} {entries : Spec β}
    (h : document env what tokens = .ok (entries, rest)) :
    ∃ ts, tokens = ts ++ rest ∧ Spells env (.value (.dict entries)) ts := by
  obtain ⟨⟨arg, rest'⟩, harg, hread⟩ := bind_eq_ok.1 h
  obtain ⟨ts, rfl, hts⟩ := spells_of_value harg
  dsimp only at hread
  split at hread
  · cases hread
    exact ⟨ts, rfl, hts⟩
  · cases hread

theorem tail_of_optional {α : Type} {parse : List Token → Except Stop (α × List Token)}
    {f : α → PyValue β}
    (hparse : ∀ tokens a rest, parse tokens = .ok (a, rest) →
      ∃ ts, tokens = ts ++ rest ∧ Spells env (.value (f a)) ts)
    {tokens rest : List Token} {arg : Option α} (h : Parser.optional parse tokens = .ok (arg, rest)) :
    ∃ ts, tokens = ts ++ rest ∧ Tail env (arg.map f) ts := by
  unfold Parser.optional at h
  split at h
  · next p more =>
    split_ifs at h
    · cases h
      exact ⟨[⟨.comma, p⟩], rfl, .comma⟩
    · cases hmore : parse more with
      | error e => rw [hmore] at h; cases h
      | ok read =>
        obtain ⟨a, rest'⟩ := read
        rw [hmore] at h
        cases h
        obtain ⟨ts, rfl, hts⟩ := hparse more a rest hmore
        exact ⟨⟨.comma, p⟩ :: ts, rfl, .argument hts⟩
  · cases h
    exact ⟨[], rfl, .none⟩

theorem tail_of_optional_value {tokens rest : List Token} {arg : Option (PyValue β)}
    (h : Parser.optional (value env) tokens = .ok (arg, rest)) :
    ∃ ts, tokens = ts ++ rest ∧ Tail env arg ts := by
  have htail := tail_of_optional (f := id) (fun _ _ _ => spells_of_value) h
  rwa [Option.map_id, id] at htail

theorem arguments_of_find {tokens rest : List Token} {args : Spec β}
    (h : parseFindArgs env tokens = .ok (args, rest)) :
    ∃ ts, tokens = ts ++ rest ∧ Arguments env .find args ts := by
  unfold parseFindArgs at h
  split_ifs at h
  · cases h
    exact ⟨[], rfl, .findAll⟩
  · obtain ⟨⟨filter, rest₁⟩, hfilter, hthen⟩ := bind_eq_ok.1 h
    obtain ⟨⟨projection, rest₂⟩, hprojection, hargs⟩ := bind_eq_ok.1 hthen
    obtain ⟨ts, rfl, hts⟩ := spells_of_document hfilter
    obtain ⟨more, rfl, hmore⟩ := tail_of_optional (fun _ _ _ => spells_of_document) hprojection
    cases hargs
    exact ⟨ts ++ more, by simp, .find hts hmore⟩

theorem documents_of_firstNonDocument {i : ℕ} {items : List (PyValue β)}
    (h : firstNonDocument i items = none) : ∃ docs : List (Spec β), items = docs.map .dict := by
  fun_induction firstNonDocument i items with
  | case1 => exact ⟨[], rfl⟩
  | case2 i entries items ih =>
    obtain ⟨docs, rfl⟩ := ih h
    exact ⟨entries :: docs, rfl⟩
  | case3 => cases h

theorem arguments_of_insertMany {tokens rest : List Token} {args : Spec β}
    (h : parseInsertManyArgs env tokens = .ok (args, rest)) :
    ∃ ts, tokens = ts ++ rest ∧ Arguments env .insertMany args ts := by
  unfold parseInsertManyArgs at h
  split_ifs at h
  · obtain ⟨⟨docs, rest₁⟩, hdocs, hthen⟩ := bind_eq_ok.1 h
    obtain ⟨ts, rfl, hts⟩ := spells_of_value hdocs
    dsimp only at hthen
    split at hthen
    · next doc others =>
      cases hfirst : firstNonDocument 0 (doc :: others) with
      | some found => simp [hfirst] at hthen
      | none =>
        simp only [hfirst] at hthen
        obtain ⟨⟨options, rest₂⟩, hoptions, hargs⟩ := bind_eq_ok.1 hthen
        obtain ⟨more, rfl, hmore⟩ := tail_of_optional_value hoptions
        obtain ⟨documents, hdocuments⟩ := documents_of_firstNonDocument hfirst
        cases hargs
        refine ⟨ts ++ more, by simp, ?_⟩
        rw [hdocuments] at hts ⊢
        exact .insertMany hts (fun hnil => by simp [hnil] at hdocuments) hmore
    · cases hthen

theorem arguments_of_updateMany {tokens rest : List Token} {args : Spec β}
    (h : parseUpdateManyArgs env tokens = .ok (args, rest)) :
    ∃ ts, tokens = ts ++ rest ∧ Arguments env .updateMany args ts := by
  unfold parseUpdateManyArgs at h
  split_ifs at h
  · obtain ⟨⟨filter, rest₁⟩, hfilter, hthen⟩ := bind_eq_ok.1 h
    obtain ⟨rest₂, hcomma, hupdate⟩ := bind_eq_ok.1 hthen
    obtain ⟨⟨update, rest₃⟩, hvalue, hoption⟩ := bind_eq_ok.1 hupdate
    obtain ⟨ts, rfl, hts⟩ := spells_of_document hfilter
    obtain ⟨p, rfl⟩ := expect_eq_ok.1 hcomma
    obtain ⟨ts', rfl, hts'⟩ := spells_of_value hvalue
    dsimp only at hoption
    split at hoption
    · obtain ⟨⟨options, rest₄⟩, hoptions, hargs⟩ := bind_eq_ok.1 hoption
      obtain ⟨more, rfl, hmore⟩ := tail_of_optional_value hoptions
      cases hargs
      exact ⟨ts ++ ⟨.comma, p⟩ :: (ts' ++ more), by simp,
        .updateMany hts hts' (List.cons_ne_nil _ _) hmore⟩
    · cases hoption

theorem arguments_of_deleteMany {tokens rest : List Token} {args : Spec β}
    (h : parseDeleteManyArgs env tokens = .ok (args, rest)) :
    ∃ ts, tokens = ts ++ rest ∧ Arguments env .deleteMany args ts := by
  unfold parseDeleteManyArgs at h
  split_ifs at h
  · obtain ⟨⟨filter, rest₁⟩, hfilter, hargs⟩ := bind_eq_ok.1 h
    obtain ⟨ts, rfl, hts⟩ := spells_of_document hfilter
    cases hargs
    exact ⟨ts, rfl, .deleteMany hts⟩

theorem arguments_of_parseArgs {operation : Operation} {tokens rest : List Token} {args : Spec β}
    (h : parseArgs env operation tokens = .ok (args, rest)) :
    ∃ ts, tokens = ts ++ rest ∧ Arguments env operation args ts := by
  cases operation with
  | find => exact arguments_of_find h
  | insertMany => exact arguments_of_insertMany h
  | updateMany => exact arguments_of_updateMany h
  | deleteMany => exact arguments_of_deleteMany h

theorem allowed_of_modifierEntry {key : String} {arg : PyValue β} {entry : CodePoints × PyValue β}
    (hkey : key = "sort" ∨ key = "skip" ∨ key = "limit")
    (h : modifierEntry env key arg = .ok entry) : entry = (codePoints key, arg) ∧ Allowed key arg := by
  unfold modifierEntry at h
  split at h
  · cases h
    exact ⟨rfl, .inl ⟨rfl, .inl ⟨_, rfl⟩⟩⟩
  · cases h
    exact ⟨rfl, .inl ⟨rfl, .inr ⟨_, rfl⟩⟩⟩
  · cases h
  · next hnosort _ _ =>
    split_ifs at h with hcount
    cases h
    rcases hkey with hsort | hkey
    · exact absurd hsort hnosort
    · exact ⟨rfl, .inr ⟨hkey, hcount⟩⟩

theorem modifiers_of_parse {operation : Operation} {rawOp : List Char} {fuel : ℕ}
    {spec spec' : Spec β} {tokens rest : List Token}
    (h : parseModifiers env operation rawOp fuel spec tokens = .ok (spec', rest)) :
    ∃ ts entries, tokens = ts ++ rest ∧ Modifiers env entries ts ∧ (operation ≠ .find → ts = []) ∧
      spec' = Dict.update spec entries := by
  induction fuel generalizing spec tokens with
  | zero => cases h
  | succ fuel ih =>
    unfold parseModifiers at h
    split at h
    · next p _ =>
      obtain ⟨⟨name, rest₁⟩, hname, hthen⟩ := bind_eq_ok.1 h
      obtain ⟨q, rfl⟩ := expectIdentifier_eq_ok.1 hname
      dsimp only at hthen
      split_ifs at hthen with hfind hpretty hkey
      · obtain ⟨rest₂, hparen, hclosed⟩ := bind_eq_ok.1 hthen
        obtain ⟨r, rfl⟩ := expect_eq_ok.1 hparen
        obtain ⟨rest₃, hclose, hmore⟩ := bind_eq_ok.1 hclosed
        obtain ⟨s, rfl⟩ := expect_eq_ok.1 hclose
        obtain ⟨ts, entries, rfl, hts, -, rfl⟩ := ih hmore
        exact ⟨_ :: _ :: _ :: _ :: ts, entries, rfl, .pretty hpretty hts, fun hne => absurd hne hfind,
          rfl⟩
      · obtain ⟨rest₂, hparen, hvalue⟩ := bind_eq_ok.1 hthen
        obtain ⟨r, rfl⟩ := expect_eq_ok.1 hparen
        obtain ⟨⟨arg, rest₃⟩, harg, hentry⟩ := bind_eq_ok.1 hvalue
        obtain ⟨entry, hmade, hclosed⟩ := bind_eq_ok.1 hentry
        obtain ⟨rest₄, hclose, hmore⟩ := bind_eq_ok.1 hclosed
        obtain ⟨rfl, hallowed⟩ := allowed_of_modifierEntry hkey hmade
        obtain ⟨ts, rfl, hts⟩ := spells_of_value harg
        obtain ⟨s, rfl⟩ := expect_eq_ok.1 hclose
        obtain ⟨more, entries, rfl, hentries, -, rfl⟩ := ih hmore
        exact ⟨⟨.dot, p⟩ :: ⟨.identifier name, q⟩ :: ⟨.lparen, r⟩ :: (ts ++ ⟨.rparen, s⟩ :: more), _,
          by simp, .entry rfl hallowed hts hentries, fun hne => absurd hne hfind, rfl⟩
      · obtain ⟨rest₂, _, hrefused⟩ := bind_eq_ok.1 hthen
        cases hrefused
    · cases h
      exact ⟨[], [], rfl, .none, fun _ => rfl, rfl⟩

/-- Modifiers end with a closing parenthesis. -/
theorem Modifiers.getLast {entries : List (CodePoints × PyValue β)} {ts : List Token}
    (h : Modifiers env entries ts) (p : ℕ) :
    ((⟨.rparen, p⟩ :: ts).getLast?).map Token.type = some .rparen := by
  induction h generalizing p with
  | none => rfl
  | @pretty _ _ more _ _ _ s _ _ ih =>
    have hmore := ih s
    rw [List.getLast?_cons_cons, List.getLast?_cons_cons, List.getLast?_cons_cons,
      List.getLast?_cons_cons]
    exact hmore
  | @entry _ _ _ _ ts more _ _ _ s _ _ _ _ ih =>
    have hmore := ih s
    rw [List.getLast?_cons_cons, List.getLast?_cons_cons, List.getLast?_cons_cons, ← List.cons_append,
      List.getLast?_append_of_ne_nil _ (List.cons_ne_nil _ _)]
    exact hmore

theorem Modifiers.getLast_append {entries : List (CodePoints × PyValue β)} {ts : List Token}
    (h : Modifiers env entries ts) (front : List Token) (p : ℕ) :
    ((front ++ ⟨.rparen, p⟩ :: ts).getLast?).map Token.type = some .rparen := by
  rw [List.getLast?_append_of_ne_nil _ (List.cons_ne_nil _ _)]
  exact h.getLast p

/-- The end of the text has nothing behind it. -/
theorem eq_nil_of_ended {front more : List Token} {token : Token}
    (h : Lexer.Ended (front ++ token :: more)) (heof : token.type = .eof) : more = [] := by
  obtain ⟨body, position, hbody, hnone⟩ := h
  rcases List.eq_nil_or_concat' more with rfl | ⟨init, last, rfl⟩
  · rfl
  · have hsplit : (front ++ token :: init) ++ [last] = body ++ [⟨.eof, position⟩] := by
      rw [← hbody]
      simp
    obtain ⟨rfl, -⟩ := List.append_inj' hsplit rfl
    exact absurd heof (hnone token (by simp))

/-- Behind what ends with a closing parenthesis, semicolons are all there is before the end. -/
theorem semicolons_of_ended {front rest : List Token}
    (hended : Lexer.Ended (front ++ rest)) (hfront : front.getLast?.map Token.type = some .rparen)
    (hlast : (current (skipSemicolons rest)).type = .eof) :
    ∃ semicolons p, rest = semicolons ++ [⟨.eof, p⟩] ∧ ∀ token ∈ semicolons, token.type = .semicolon := by
  have hsplit : rest.takeWhile (fun token => token.type = .semicolon) ++ skipSemicolons rest = rest :=
    List.takeWhile_append_dropWhile
  have hall : ∀ token ∈ rest.takeWhile (fun token => token.type = .semicolon),
      token.type = .semicolon := fun token htoken => by simpa using List.mem_takeWhile_imp htoken
  cases hskip : skipSemicolons rest with
  | nil =>
    -- The last token is a semicolon or the parenthesis, but it is the end of the text.
    obtain ⟨body, position, hbody, -⟩ := hended
    rw [hskip, List.append_nil] at hsplit
    have hend : (front ++ rest).getLast? = some ⟨.eof, position⟩ := by rw [hbody]; simp
    rcases List.eq_nil_or_concat' rest with rfl | ⟨init, last, rfl⟩
    · rw [List.append_nil] at hend
      rw [hend] at hfront
      cases hfront
    · have hmem : last ∈ (init ++ [last]).takeWhile (fun token => token.type = .semicolon) := by
        rw [hsplit]
        simp
      have htype := hall last hmem
      rw [← List.append_assoc, List.getLast?_concat] at hend
      rw [Option.some.inj hend] at htype
      cases htype
  | cons token more =>
    rw [hskip] at hlast hsplit
    have hnil : more = [] := by
      rw [← hsplit, ← List.append_assoc] at hended
      exact eq_nil_of_ended hended hlast
    subst hnil
    obtain ⟨type, p⟩ := token
    obtain rfl : type = .eof := hlast
    exact ⟨_, p, hsplit.symm, hall⟩

theorem written_of_parse {tokens : List Token} {operation : Operation} {spec : Spec β}
    (hended : Lexer.Ended tokens) (h : parse env tokens = .ok (operation, spec)) :
    Written env tokens operation spec := by
  unfold parse at h
  dsimp only at h
  split_ifs at h with hdb
  · cases h
  obtain ⟨rest₁, hdot, h₁⟩ := bind_eq_ok.1 h
  obtain ⟨⟨collection, rest₂⟩, hcollection, h₂⟩ := bind_eq_ok.1 h₁
  obtain ⟨rest₃, hdot', h₃⟩ := bind_eq_ok.1 h₂
  obtain ⟨⟨rawOp, rest₄⟩, hrawOp, h₄⟩ := bind_eq_ok.1 h₃
  dsimp only at h₄
  split at h₄
  · cases h₄
  next operation' hoperation =>
  obtain ⟨rest₅, hparen, h₅⟩ := bind_eq_ok.1 h₄
  obtain ⟨⟨args, rest₆⟩, hargs, h₆⟩ := bind_eq_ok.1 h₅
  obtain ⟨rest₇, hclose, h₇⟩ := bind_eq_ok.1 h₆
  obtain ⟨⟨spec', rest₈⟩, hmodifiers, h₈⟩ := bind_eq_ok.1 h₇
  dsimp only at h₈
  split_ifs at h₈ with hlast
  · cases h₈
  cases h₈
  obtain ⟨p₂, htail⟩ := expect_eq_ok.1 hdot
  obtain ⟨p₃, rfl⟩ := expectIdentifier_eq_ok.1 hcollection
  obtain ⟨p₄, rfl⟩ := expect_eq_ok.1 hdot'
  obtain ⟨p₅, rfl⟩ := expectIdentifier_eq_ok.1 hrawOp
  obtain ⟨p₆, rfl⟩ := expect_eq_ok.1 hparen
  obtain ⟨ts, rfl, hts⟩ := arguments_of_parseArgs hargs
  obtain ⟨p₇, rfl⟩ := expect_eq_ok.1 hclose
  obtain ⟨modifiers, entries, rfl, hentries, hread, rfl⟩ := modifiers_of_parse hmodifiers
  cases tokens with
  | nil => cases htail
  | cons db tokens =>
    obtain ⟨type, p₁⟩ := db
    obtain rfl : type = .identifier ['d', 'b'] := not_not.1 hdb
    rw [List.tail_cons] at htail
    subst htail
    have hend := hentries.getLast_append (⟨.identifier ['d', 'b'], p₁⟩ :: ⟨.dot, p₂⟩ ::
      ⟨.identifier collection, p₃⟩ :: ⟨.dot, p₄⟩ :: ⟨.identifier rawOp, p₅⟩ :: ⟨.lparen, p₆⟩ :: ts) p₇
    obtain ⟨semicolons, p₈, rfl, hsemicolons⟩ :=
      semicolons_of_ended (by simpa using hended) hend (not_not.1 hlast)
    exact .query hoperation hts hentries hread hsemicolons

/-! ### Nothing is added to the text -/

variable (env)

/-- The entry is an argument of the text, or the truth of an option in one. -/
def FromText (tokens : List Token) (entry : CodePoints × PyValue β) : Prop :=
  ∃ arg before ts after, tokens = before ++ (ts ++ after) ∧ Spells env (.value arg) ts ∧
    (entry.2 = arg ∨ ∃ options option, arg = .dict options ∧
      Dict.get? options entry.1 = some option ∧ entry.2 = .bool (truthy option))

/-- What an operation takes for an argument that is not written. -/
def Default (operation : Operation) (entry : CodePoints × PyValue β) : Prop :=
  (operation = .find ∧ entry = (codePoints "filter", .dict [])) ∨
    (operation = .insertMany ∧ entry = (codePoints "ordered", .bool true))

/-- The parameters are what the tokens say, which are a query from the first to the last. -/
structure Conservative (tokens : List Token) (operation : Operation) (spec : Spec β) : Prop where
  written : Written env tokens operation spec
  collection : ∃ name, tokens[2]?.map Token.type = some (.identifier name) ∧
    Dict.get? spec (codePoints "collection") = some (.str (name.map Char.toNat))
  updateMany : operation = .updateMany → ∃ filter update ts ts' p rest,
    tokens.drop 6 = ts ++ ⟨.comma, p⟩ :: (ts' ++ rest) ∧
    Spells env (.value (.dict filter)) ts ∧ Spells env (.value (.dict update)) ts' ∧ update ≠ [] ∧
    Dict.get? spec (codePoints "filter") = some (.dict filter) ∧
    Dict.get? spec (codePoints "update") = some (.dict update)
  deleteMany : operation = .deleteMany → ∃ filter ts p rest,
    tokens.drop 6 = ts ++ ⟨.rparen, p⟩ :: rest ∧ Spells env (.value (.dict filter)) ts ∧
    Dict.get? spec (codePoints "filter") = some (.dict filter)
  sourced : ∀ entry ∈ spec, entry.1 = codePoints "collection" ∨ Default operation entry ∨
    FromText env tokens entry

variable {env}

theorem FromText.within {ts : List Token} {entry : CodePoints × PyValue β} (h : FromText env ts entry)
    (before after : List Token) : FromText env (before ++ (ts ++ after)) entry := by
  obtain ⟨arg, left, middle, right, rfl, hspells, hentry⟩ := h
  exact ⟨arg, before ++ left, middle, right ++ after, by simp, hspells, hentry⟩

theorem fromText_of_spells {key : CodePoints} {v : PyValue β} {ts : List Token}
    (h : Spells env (.value v) ts) : FromText env ts (key, v) :=
  ⟨v, [], ts, [], by simp, h, .inl rfl⟩

theorem Tail.fromText {arg v : PyValue β} {key : CodePoints} {more : List Token}
    (h : Tail env (some arg) more) (hv : v = arg ∨ ∃ options option, arg = .dict options ∧
      Dict.get? options key = some option ∧ v = .bool (truthy option)) :
    FromText env more (key, v) := by
  cases h with
  | @argument _ ts p harg => exact ⟨arg, [⟨.comma, p⟩], ts, [], by simp, harg, hv⟩

theorem Tail.fromText_option {options : Option (PyValue β)} {name : String} {b : Bool}
    {more : List Token} (h : Tail env options more) (hb : optionOf name options = some b) :
    FromText env more (codePoints name, .bool b) := by
  unfold optionOf at hb
  split at hb
  · next entries =>
    obtain ⟨option, hoption, rfl⟩ := Option.map_eq_some_iff.1 hb
    exact h.fromText (.inr ⟨entries, option, rfl, hoption, rfl⟩)
  · cases hb

theorem Arguments.sourced {operation : Operation} {args : Spec β} {ts : List Token}
    (h : Arguments env operation args ts) {entry : CodePoints × PyValue β} (hentry : entry ∈ args) :
    Default operation entry ∨ FromText env ts entry := by
  cases h with
  | findAll => exact .inl (.inl ⟨rfl, List.mem_singleton.1 hentry⟩)
  | @find filter projection ts more hfilter hmore =>
    right
    rcases List.mem_cons.1 hentry with rfl | hentry
    · exact (fromText_of_spells hfilter).within [] more
    · obtain ⟨p, rfl, rfl⟩ : ∃ p, projection = some p ∧ entry = (codePoints "projection", .dict p) := by
        cases projection with
        | none => simp at hentry
        | some p => exact ⟨p, rfl, by simpa using hentry⟩
      have hprojection : FromText env more (codePoints "projection", .dict p) :=
        hmore.fromText (.inl rfl)
      simpa using hprojection.within ts []
  | @insertMany docs options ts more hdocs _ hmore =>
    rcases List.mem_cons.1 hentry with rfl | hentry
    · exact .inr ((fromText_of_spells hdocs).within [] more)
    · rw [List.mem_singleton.1 hentry]
      cases hordered : optionOf "ordered" options with
      | none => exact .inl (.inr ⟨rfl, rfl⟩)
      | some b => exact .inr (by simpa using (hmore.fromText_option hordered).within ts [])
  | @updateMany filter update options ts ts' more p hfilter hupdate _ hmore =>
    right
    rcases List.mem_cons.1 hentry with rfl | hentry
    · exact (fromText_of_spells hfilter).within [] _
    rcases List.mem_cons.1 hentry with rfl | hentry
    · rw [List.append_cons]
      exact (fromText_of_spells hupdate).within (ts ++ [⟨.comma, p⟩]) more
    · obtain ⟨b, hb, rfl⟩ : ∃ b, optionOf "upsert" options = some b ∧
          entry = (codePoints "upsert", .bool b) := by
        cases hupsert : optionOf "upsert" options with
        | none => simp [hupsert] at hentry
        | some b => exact ⟨b, rfl, by simpa [hupsert] using hentry⟩
      simpa using (hmore.fromText_option hb).within (ts ++ ⟨.comma, p⟩ :: ts') []
  | @deleteMany filter ts hfilter =>
    rw [List.mem_singleton.1 hentry]
    exact .inr (fromText_of_spells hfilter)

theorem Modifiers.sourced {entries : List (CodePoints × PyValue β)} {ts : List Token}
    (h : Modifiers env entries ts) {entry : CodePoints × PyValue β} (hentry : entry ∈ entries) :
    FromText env ts entry := by
  induction h with
  | none => cases hentry
  | @pretty name _ more p q r s _ _ ih =>
    simpa using (ih hentry).within
      [⟨.dot, p⟩, ⟨.identifier name, q⟩, ⟨.lparen, r⟩, ⟨.rparen, s⟩] []
  | @entry name key arg _ ts more p q r s _ _ harg _ ih =>
    rcases List.mem_cons.1 hentry with rfl | hentry
    · exact (fromText_of_spells harg).within [⟨.dot, p⟩, ⟨.identifier name, q⟩, ⟨.lparen, r⟩] _
    · have hmore := (ih hentry).within
        (⟨.dot, p⟩ :: ⟨.identifier name, q⟩ :: ⟨.lparen, r⟩ :: (ts ++ [⟨.rparen, s⟩])) []
      rw [List.append_nil] at hmore
      rw [List.append_cons ts]
      exact hmore

/-- A modifier assigns one of three keys. -/
theorem Modifiers.key_mem {entries : List (CodePoints × PyValue β)} {ts : List Token}
    (h : Modifiers env entries ts) {key : CodePoints} (hkey : key ∈ entries.map Prod.fst) :
    key ∈ [codePoints "sort", codePoints "skip", codePoints "limit"] := by
  induction h with
  | none => cases hkey
  | pretty _ _ ih => exact ih hkey
  | entry _ hallowed _ _ ih =>
    rcases List.mem_cons.1 hkey with rfl | hkey
    · rcases hallowed with ⟨rfl, -⟩ | ⟨rfl | rfl, -⟩ <;> simp
    · exact ih hkey

theorem Modifiers.eq_nil {entries : List (CodePoints × PyValue β)} (h : Modifiers env entries []) :
    entries = [] := by
  cases h
  rfl

theorem conservative_of_written {tokens : List Token} {operation : Operation} {spec : Spec β}
    (h : Written env tokens operation spec) : Conservative env tokens operation spec := by
  refine ⟨h, ?_, ?_, ?_, ?_⟩
  · cases h with
    | @query collection _ _ args _ _ _ _ _ _ _ _ _ _ _ _ _ _ hmodifiers _ _ =>
      refine ⟨collection, rfl, ?_⟩
      rw [Dict.get?_update_of_not_mem fun hkey => absurd (hmodifiers.key_mem hkey) (by decide)]
      rfl
  · rintro rfl
    cases h with
    | query _ hargs hmodifiers hread _ =>
      obtain rfl := hread (by decide)
      obtain rfl := hmodifiers.eq_nil
      cases hargs with
      | @updateMany filter update _ ts ts' more p hfilter hupdate hsome _ =>
        exact ⟨filter, update, ts, ts', p, _, by simp; rfl, hfilter, hupdate, hsome, rfl, rfl⟩
  · rintro rfl
    cases h with
    | query _ hargs hmodifiers hread _ =>
      obtain rfl := hread (by decide)
      obtain rfl := hmodifiers.eq_nil
      cases hargs with
      | @deleteMany filter _ hfilter => exact ⟨filter, _, _, _, rfl, hfilter, rfl⟩
  · intro entry hentry
    cases h with
    | @query collection rawOp _ args entries ts modifiers semicolons p₁ p₂ p₃ p₄ p₅ p₆ p₇ p₈ _ hargs
        hmodifiers _ _ =>
      rcases Dict.mem_update hentry with hentry | hentry
      · rcases List.mem_cons.1 hentry with rfl | hentry
        · exact .inl rfl
        · refine .inr ((hargs.sourced hentry).imp_right fun hfrom => ?_)
          exact hfrom.within [⟨.identifier ['d', 'b'], p₁⟩, ⟨.dot, p₂⟩, ⟨.identifier collection, p₃⟩,
            ⟨.dot, p₄⟩, ⟨.identifier rawOp, p₅⟩, ⟨.lparen, p₆⟩] _
      · refine .inr (.inr ?_)
        rw [List.append_cons ts]
        exact (hmodifiers.sourced hentry).within (⟨.identifier ['d', 'b'], p₁⟩ :: ⟨.dot, p₂⟩ ::
          ⟨.identifier collection, p₃⟩ :: ⟨.dot, p₄⟩ :: ⟨.identifier rawOp, p₅⟩ :: ⟨.lparen, p₆⟩ ::
          (ts ++ [⟨.rparen, p₇⟩])) (semicolons ++ [⟨.eof, p₈⟩])

/-- What the parser accepts is a query whose parameters it writes. -/
theorem conservative_of_parse {query : List Char} {operation : Operation} {spec : Spec β}
    (h : parseMongodbShellQuery env query = .ok (operation, spec)) :
    ∃ tokens, Lexer.tokenize env.unicode query = .ok tokens ∧
      Conservative env tokens operation spec := by
  unfold parseMongodbShellQuery at h
  dsimp only at h
  split_ifs at h
  · cases h
  · obtain ⟨tokens, htokens, hparse⟩ := bind_eq_ok.1 h
    exact ⟨tokens, htokens,
      conservative_of_written (written_of_parse (Lexer.ended_of_scan htokens) hparse)⟩

theorem parseMongodbShellQuery_ne_outOfFuel (hu : Lexer.LettersInNames env.unicode)
    {query : List Char} : parseMongodbShellQuery env query ≠ .error .outOfFuel := by
  unfold parseMongodbShellQuery
  dsimp only
  split_ifs
  · rintro ⟨⟩
  · refine bind_ne_error ?_ fun _ _ => parse_ne_outOfFuel
    exact Lexer.scan_ne_outOfFuel hu _ query (Nat.lt_succ_self _)

/-- Every text is refused with a message, or it is a query whose parameters it writes. -/
theorem parseMongodbShellQuery_answers (env : Env β) (hu : Lexer.LettersInNames env.unicode)
    (query : List Char) :
    (∃ message, parseMongodbShellQuery env query = .error (.queryExecution message)) ∨
      ∃ tokens operation spec, Lexer.tokenize env.unicode query = .ok tokens ∧
        parseMongodbShellQuery env query = .ok (operation, spec) ∧
        Conservative env tokens operation spec := by
  cases hparse : parseMongodbShellQuery env query with
  | error stop =>
    cases stop with
    | queryExecution message => exact .inl ⟨message, rfl⟩
    | outOfFuel => exact absurd hparse (parseMongodbShellQuery_ne_outOfFuel hu)
  | ok result =>
    obtain ⟨operation, spec⟩ := result
    obtain ⟨tokens, htokens, hconservative⟩ := conservative_of_parse hparse
    exact .inr ⟨tokens, operation, spec, htokens, rfl, hconservative⟩

/-! ### An argument that is left out -/

theorem object_of_built {context : String} {result : Except String β} {v : PyValue β}
    (h : built context result = .ok v) : ∃ o, v = .object o := by
  cases result with
  | error e => cases h
  | ok o =>
    cases h
    exact ⟨o, rfl⟩

/-- A constructor builds an object. -/
theorem object_of_construct {kind : Constructor} {name : List Char} {arg v : PyValue β}
    (h : construct env kind name arg = .ok v) : ∃ o, v = .object o := by
  unfold construct at h
  dsimp only at h
  split at h
  all_goals first | exact object_of_built h | cases h

theorem object_of_call {name : List Char} {v : PyValue β} {ts : List Token}
    (h : Spells env (.call name v) ts) : ∃ o, v = .object o := by
  cases h with
  | oneArgument _ _ hbuilt => exact object_of_construct hbuilt
  | twoArguments _ _ _ hbuilt => exact object_of_built hbuilt

/-- A document starts with a brace. -/
theorem brace_of_document {entries : Spec β} {ts : List Token}
    (h : Spells env (.value (.dict entries)) ts) : ∃ p more, ts = ⟨.lbrace, p⟩ :: more := by
  generalize hv : Phrase.value (.dict entries) = phrase at h
  cases h with
  | emptyObject => exact ⟨_, _, rfl⟩
  | object => exact ⟨_, _, rfl⟩
  | @number n => cases n <;> cases hv
  | @keyword name v _ hname =>
    obtain rfl := Phrase.value.inj hv
    unfold keyword? at hname
    split_ifs at hname
    all_goals cases hname
  | newCall hcall =>
    obtain rfl := Phrase.value.inj hv
    obtain ⟨o, ho⟩ := object_of_call hcall
    cases ho
  | directCall _ _ hcall =>
    obtain rfl := Phrase.value.inj hv
    obtain ⟨o, ho⟩ := object_of_call hcall
    cases ho
  | _ => cases hv

end

/-- Texts of ASCII, without the constructors of BSON values. -/
def bareEnv : Env Unit where
  unicode := .ascii
  str _ := ""
  repr _ := ""
  className _ := ""
  objectId _ := .error ""
  fromisoformat _ := .error ""
  uuid _ := .error ""
  decimal128 _ := .error ""
  timestamp _ _ := .error ""

/-- `db.c.updateMany({}, {a: 1})` is such a query. -/
theorem parseMongodbShellQuery_answers_update :
    ∃ tokens operation spec, parseMongodbShellQuery bareEnv
        ['d', 'b', '.', 'c', '.', 'u', 'p', 'd', 'a', 't', 'e', 'M', 'a', 'n', 'y', '(', '{', '}', ',',
          '{', 'a', ':', '1', '}', ')'] = .ok (operation, spec) ∧
      Conservative bareEnv tokens operation spec := by
  have hok : parseMongodbShellQuery bareEnv
      ['d', 'b', '.', 'c', '.', 'u', 'p', 'd', 'a', 't', 'e', 'M', 'a', 'n', 'y', '(', '{', '}', ',',
        '{', 'a', ':', '1', '}', ')'] = .ok (.updateMany,
      [(codePoints "collection", .str [99]), (codePoints "filter", .dict []),
        (codePoints "update", .dict [([97], .int 1)])]) := rfl
  rcases parseMongodbShellQuery_answers bareEnv (fun _ => QueryEngine.Lexer.ascii_isalnum) _ with
    ⟨message, hrefused⟩ | ⟨tokens, operation, spec, -, hspec, hconservative⟩
  · rw [hok] at hrefused
    cases hrefused
  · exact ⟨tokens, operation, spec, hspec, hconservative⟩

/-- `db.c.find()` searches with a filter that the text does not say. -/
theorem filter_not_fromText :
    ∃ tokens spec, Lexer.tokenize .ascii ['d', 'b', '.', 'c', '.', 'f', 'i', 'n', 'd', '(', ')'] =
        .ok tokens ∧
      parseMongodbShellQuery bareEnv ['d', 'b', '.', 'c', '.', 'f', 'i', 'n', 'd', '(', ')'] =
        .ok (.find, spec) ∧
      ∃ entry ∈ spec, entry.1 ≠ codePoints "collection" ∧ ¬ FromText bareEnv tokens entry := by
  refine ⟨_, [(codePoints "collection", .str [99]), (codePoints "filter", .dict [])], rfl, rfl,
    (codePoints "filter", .dict []), by simp, by decide, ?_⟩
  rintro ⟨arg, before, ts, after, htokens, hspells, rfl | ⟨_, _, _, _, hbool⟩⟩
  · obtain ⟨p, more, rfl⟩ := brace_of_document hspells
    have hmem : TokenType.lbrace ∈ (before ++ (⟨.lbrace, p⟩ :: more ++ after)).map Token.type := by simp
    rw [← htokens] at hmem
    revert hmem
    decide
  · cases hbool

end AltrStream.Connectors.Shell
