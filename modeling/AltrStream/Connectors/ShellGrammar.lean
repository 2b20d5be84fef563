import AltrStream.Connectors.ShellParser
import AltrStream.Foundations.Checks

/-! # The expressions of MongoDB's shell syntax

A grammar of the values that tokens spell, in which positions play no role. The parser
accepts exactly these tokens, and it reads the spelled value off them.
-/
namespace AltrStream.Connectors.Shell
open Foundations Python Shell.Parser

/-- What a run of tokens can be. -/
inductive Phrase (β : Type) where
  | value (value : PyValue β)
  /-- The properties of an object with its closing brace. -/
  | properties (entries : List (CodePoints × PyValue β))
  /-- The items of an array with its closing bracket. -/
  | items (items : List (PyValue β))
  /-- The arguments of a constructor, in parentheses, and what it builds. -/
  | call (name : List Char) (value : PyValue β)

/-- A bracket, perhaps after a comma. -/
def Closes (bracket : TokenType) (tokens : List Token) : Prop :=
  ∃ p, tokens = [⟨bracket, p⟩] ∨ ∃ q, tokens = [⟨.comma, q⟩, ⟨bracket, p⟩]

section
variable {β : Type} (env : Env β)

/-- The tokens are such a phrase. -/
inductive Spells : Phrase β → List Token → Prop
  | string {s : CodePoints} {p : ℕ} : Spells (.value (.str s)) [⟨.string s, p⟩]
  | number {n : Number} {p : ℕ} : Spells (.value n.toValue) [⟨.number n, p⟩]
  | keyword {name : List Char} {v : PyValue β} {p : ℕ} (hname : keyword? name = some v) :
      Spells (.value v) [⟨.identifier name, p⟩]
  | emptyObject {p q : ℕ} : Spells (.value (.dict [])) [⟨.lbrace, p⟩, ⟨.rbrace, q⟩]
  | object {entries : List (CodePoints × PyValue β)} {ts : List Token} {p : ℕ}
      (hentries : Spells (.properties entries) ts) :
      Spells (.value (.dict (Dict.ofEntries entries))) (⟨.lbrace, p⟩ :: ts)
  | emptyArray {p q : ℕ} : Spells (.value (.list [])) [⟨.lbracket, p⟩, ⟨.rbracket, q⟩]
  | array {items : List (PyValue β)} {ts : List Token} {p : ℕ} (hitems : Spells (.items items) ts) :
      Spells (.value (.list items)) (⟨.lbracket, p⟩ :: ts)
  | newCall {name : List Char} {v : PyValue β} {ts : List Token} {p q : ℕ}
      (hcall : Spells (.call name v) ts) :
      Spells (.value v) (⟨.identifier ['n', 'e', 'w'], p⟩ :: ⟨.identifier name, q⟩ :: ts)
  | directCall {name : List Char} {v : PyValue β} {ts : List Token} {p : ℕ}
      (hname : (keyword? name : Option (PyValue β)) = none) (hnew : name ≠ ['n', 'e', 'w'])
      (hcall : Spells (.call name v) ts) : Spells (.value v) (⟨.identifier name, p⟩ :: ts)
  | lastProperty {key : Token} {name : CodePoints} {v : PyValue β} {ts close : List Token} {p : ℕ}
      (hkey : propertyName? key.type = some name) (hvalue : Spells (.value v) ts)
      (hclose : Closes .rbrace close) :
      Spells (.properties [(name, v)]) (key :: ⟨.colon, p⟩ :: (ts ++ close))
  | nextProperty {key : Token} {name : CodePoints} {v : PyValue β} {ts more : List Token} {p q : ℕ}
      {entries : List (CodePoints × PyValue β)}
      (hkey : propertyName? key.type = some name) (hvalue : Spells (.value v) ts)
      (hmore : Spells (.properties entries) more) :
      Spells (.properties ((name, v) :: entries))
        (key :: ⟨.colon, p⟩ :: (ts ++ ⟨.comma, q⟩ :: more))
  | lastItem {v : PyValue β} {ts close : List Token} (hvalue : Spells (.value v) ts)
      (hclose : Closes .rbracket close) : Spells (.items [v]) (ts ++ close)
  | nextItem {v : PyValue β} {ts more : List Token} {q : ℕ} {items : List (PyValue β)}
      (hvalue : Spells (.value v) ts) (hmore : Spells (.items items) more) :
      Spells (.items (v :: items)) (ts ++ ⟨.comma, q⟩ :: more)
  | oneArgument {kind : Constructor} {name : List Char} {arg v : PyValue β} {ts : List Token} {p q : ℕ}
      (hkind : constructorOf? (env.unicode.lower (String.ofList name)) = some kind)
      (harg : Spells (.value arg) ts) (hbuilt : construct env kind name arg = .ok v) :
      Spells (.call name v) (⟨.lparen, p⟩ :: (ts ++ [⟨.rparen, q⟩]))
  | twoArguments {name : List Char} {t i v : PyValue β} {ts ts' : List Token} {p q r : ℕ}
      (hkind : constructorOf? (env.unicode.lower (String.ofList name)) = some .timestamp)
      (ht : Spells (.value t) ts) (hi : Spells (.value i) ts')
      (hbuilt : constructTimestamp env t i = .ok v) :
      Spells (.call name v) (⟨.lparen, p⟩ :: (ts ++ ⟨.comma, q⟩ :: (ts' ++ [⟨.rparen, r⟩])))

variable {env}

theorem Spells.ne_nil {phrase : Phrase β} {ts : List Token} (h : Spells env phrase ts) : ts ≠ [] := by
  cases h with
  | lastItem _ hclose =>
    obtain ⟨p, rfl | ⟨q, rfl⟩⟩ := hclose <;> simp
  | _ => simp

/-! ### What the parser accepts is spelled -/

theorem expect_eq_ok {type : TokenType} {message : String} {tokens rest : List Token} :
    expect type message tokens = .ok rest ↔ ∃ p, tokens = ⟨type, p⟩ :: rest := by
  cases tokens with
  | nil => simp [expect]
  | cons token more =>
    obtain ⟨type', p⟩ := token
    by_cases htype : type' = type <;> simp [expect, htype]

theorem expectIdentifier_eq_ok {message : String} {tokens rest : List Token} {name : List Char} :
    expectIdentifier message tokens = .ok (name, rest) ↔
      ∃ p, tokens = ⟨.identifier name, p⟩ :: rest := by
  unfold expectIdentifier
  split
  · simp
  · next hnot =>
    constructor
    · rintro ⟨⟩
    · rintro ⟨p, rfl⟩
      exact absurd rfl (hnot name p rest)

/-- What the calls of the parser with so much fuel return is spelled by what they consumed. -/
structure Sound (env : Env β) (fuel : ℕ) : Prop where
  value : ∀ {tokens v rest}, parseValue env fuel tokens = .ok (v, rest) →
    ∃ ts, tokens = ts ++ rest ∧ Spells env (.value v) ts
  pairs : ∀ {entries tokens v rest}, parsePairs env fuel entries tokens = .ok (v, rest) →
    ∃ ts more, tokens = ts ++ rest ∧ Spells env (.properties more) ts ∧
      v = .dict (Dict.update entries more)
  items : ∀ {items tokens v rest}, parseItems env fuel items tokens = .ok (v, rest) →
    ∃ ts more, tokens = ts ++ rest ∧ Spells env (.items more) ts ∧ v = .list (items ++ more)
  call : ∀ {name tokens v rest}, parseConstructor env fuel name tokens = .ok (v, rest) →
    ∃ ts, tokens = ts ++ rest ∧ Spells env (.call name v) ts

theorem sound_value {fuel : ℕ} (ih : Sound env fuel) {tokens rest : List Token} {v : PyValue β}
    (h : parseValue env (fuel + 1) tokens = .ok (v, rest)) :
    ∃ ts, tokens = ts ++ rest ∧ Spells env (.value v) ts := by
  unfold parseValue at h
  split at h
  · cases h
    exact ⟨_, rfl, .emptyObject⟩
  · obtain ⟨ts, more, rfl, hmore, rfl⟩ := ih.pairs h
    exact ⟨_, rfl, .object hmore⟩
  · cases h
    exact ⟨_, rfl, .emptyArray⟩
  · obtain ⟨ts, more, rfl, hmore, rfl⟩ := ih.items h
    exact ⟨_, rfl, .array hmore⟩
  · cases h
    exact ⟨_, rfl, .string⟩
  · cases h
    exact ⟨_, rfl, .number⟩
  · split at h
    · next hname =>
      cases h
      exact ⟨_, rfl, .keyword hname⟩
    · next hname =>
      split_ifs at h with hnew hparen
      · obtain ⟨⟨name', rest'⟩, hidentifier, h⟩ := bind_eq_ok.1 h
        obtain ⟨q, rfl⟩ := expectIdentifier_eq_ok.1 hidentifier
        obtain ⟨ts, rfl, hcall⟩ := ih.call h
        subst hnew
        exact ⟨_, rfl, .newCall hcall⟩
      · obtain ⟨ts, rfl, hcall⟩ := ih.call h
        exact ⟨_, rfl, .directCall hname hnew hcall⟩
  · cases h

theorem sound_pairs {fuel : ℕ} (ih : Sound env fuel) {entries : Spec β} {tokens rest : List Token}
    {v : PyValue β} (h : parsePairs env (fuel + 1) entries tokens = .ok (v, rest)) :
    ∃ ts more, tokens = ts ++ rest ∧ Spells env (.properties more) ts ∧
      v = .dict (Dict.update entries more) := by
  unfold parsePairs at h
  cases hkey : propertyName? (current tokens).type with
  | none => simp [hkey] at h
  | some name =>
    simp only [hkey] at h
    obtain ⟨rest₁, hcolon, hthen⟩ := bind_eq_ok.1 h
    obtain ⟨⟨value, rest₂⟩, hvalue, hrest⟩ := bind_eq_ok.1 hthen
    dsimp only at hrest
    obtain ⟨p, htail⟩ := expect_eq_ok.1 hcolon
    obtain ⟨ts, rfl, hts⟩ := ih.value hvalue
    cases tokens with
    | nil => cases htail
    | cons key tokens =>
      obtain rfl : tokens = ⟨.colon, p⟩ :: (ts ++ rest₂) := htail
      split at hrest
      · next q r _ =>
        cases hrest
        exact ⟨key :: ⟨.colon, p⟩ :: (ts ++ [⟨.comma, q⟩, ⟨.rbrace, r⟩]), _, by simp,
          .lastProperty hkey hts ⟨r, .inr ⟨q, rfl⟩⟩, rfl⟩
      · next q _ _ =>
        obtain ⟨more, written, rfl, hmore, rfl⟩ := ih.pairs hrest
        exact ⟨key :: ⟨.colon, p⟩ :: (ts ++ ⟨.comma, q⟩ :: more), _, by simp,
          .nextProperty hkey hts hmore, rfl⟩
      · next r _ =>
        cases hrest
        exact ⟨key :: ⟨.colon, p⟩ :: (ts ++ [⟨.rbrace, r⟩]), _, by simp,
          .lastProperty hkey hts ⟨r, .inl rfl⟩, rfl⟩
      · cases hrest

theorem sound_items {fuel : ℕ} (ih : Sound env fuel) {items : List (PyValue β)}
    {tokens rest : List Token} {v : PyValue β}
    (h : parseItems env (fuel + 1) items tokens = .ok (v, rest)) :
    ∃ ts more, tokens = ts ++ rest ∧ Spells env (.items more) ts ∧ v = .list (items ++ more) := by
  unfold parseItems at h
  obtain ⟨⟨value, rest₁⟩, hvalue, hrest⟩ := bind_eq_ok.1 h
  dsimp only at hrest
  obtain ⟨ts, rfl, hts⟩ := ih.value hvalue
  split at hrest
  · next q r _ =>
    cases hrest
    exact ⟨ts ++ [⟨.comma, q⟩, ⟨.rbracket, r⟩], _, by simp,
      .lastItem hts ⟨r, .inr ⟨q, rfl⟩⟩, rfl⟩
  · next q _ _ =>
    obtain ⟨more, written, rfl, hmore, rfl⟩ := ih.items hrest
    exact ⟨ts ++ ⟨.comma, q⟩ :: more, _, by simp, .nextItem hts hmore, by simp⟩
  · next r _ =>
    cases hrest
    exact ⟨ts ++ [⟨.rbracket, r⟩], _, by simp, .lastItem hts ⟨r, .inl rfl⟩, rfl⟩
  · cases hrest

theorem sound_call {fuel : ℕ} (ih : Sound env fuel) {name : List Char} {tokens rest : List Token}
    {v : PyValue β} (h : parseConstructor env (fuel + 1) name tokens = .ok (v, rest)) :
    ∃ ts, tokens = ts ++ rest ∧ Spells env (.call name v) ts := by
  unfold parseConstructor at h
  obtain ⟨rest₁, hparen, harguments⟩ := bind_eq_ok.1 h
  obtain ⟨p, rfl⟩ := expect_eq_ok.1 hparen
  split at harguments
  · cases harguments
  · next kind hkind =>
    obtain ⟨⟨arg, rest₂⟩, harg, hrest⟩ := bind_eq_ok.1 harguments
    dsimp only at hrest
    obtain ⟨ts, rfl, hts⟩ := ih.value harg
    split at hrest
    · next q _ =>
      obtain ⟨⟨increment, rest₃⟩, hincrement, hclosed⟩ := bind_eq_ok.1 hrest
      obtain ⟨ts', rfl, hts'⟩ := ih.value hincrement
      obtain ⟨rest₄, hclose, hbuild⟩ := bind_eq_ok.1 hclosed
      obtain ⟨r, rfl⟩ := expect_eq_ok.1 hclose
      obtain ⟨built, hbuilt, hbuild⟩ := bind_eq_ok.1 hbuild
      cases hbuild
      exact ⟨⟨.lparen, p⟩ :: (ts ++ ⟨.comma, q⟩ :: (ts' ++ [⟨.rparen, r⟩])), by simp,
        .twoArguments hkind hts hts' hbuilt⟩
    · obtain ⟨rest₃, hclose, hbuild⟩ := bind_eq_ok.1 hrest
      obtain ⟨q, rfl⟩ := expect_eq_ok.1 hclose
      obtain ⟨built, hbuilt, hbuild⟩ := bind_eq_ok.1 hbuild
      cases hbuild
      exact ⟨⟨.lparen, p⟩ :: (ts ++ [⟨.rparen, q⟩]), by simp, .oneArgument hkind hts hbuilt⟩

theorem sound (fuel : ℕ) : Sound env fuel := by
  induction fuel with
  | zero =>
    constructor <;> intros <;> simp_all [parseValue, parsePairs, parseItems, parseConstructor]
  | succ fuel ih => exact ⟨sound_value ih, sound_pairs ih, sound_items ih, sound_call ih⟩

/-- A value that the parser returns is spelled by what it consumed. -/
theorem spells_of_value {tokens rest : List Token} {v : PyValue β}
    (h : value env tokens = .ok (v, rest)) :
    ∃ ts, tokens = ts ++ rest ∧ Spells env (.value v) ts := (sound _).value h

/-! ### What is spelled, the parser accepts -/

theorem expect_cons (type : TokenType) (message : String) (p : ℕ) (rest : List Token) :
    expect type message (⟨type, p⟩ :: rest) = .ok rest := expect_eq_ok.2 ⟨p, rfl⟩

/-- A value does not start with a token that closes or separates. -/
theorem head_of_value {v : PyValue β} {ts : List Token} (h : Spells env (.value v) ts) :
    ∃ t more, ts = t :: more ∧ t.type ≠ .rbracket := by
  cases h <;> exact ⟨_, _, rfl, by simp⟩

theorem head_of_items {items : List (PyValue β)} {ts : List Token} (h : Spells env (.items items) ts) :
    ∃ t more, ts = t :: more ∧ t.type ≠ .rbracket := by
  cases h with
  | lastItem hvalue hclose =>
    obtain ⟨t, more, rfl, ht⟩ := head_of_value hvalue
    exact ⟨t, _, rfl, ht⟩
  | nextItem hvalue hmore =>
    obtain ⟨t, more, rfl, ht⟩ := head_of_value hvalue
    exact ⟨t, _, rfl, ht⟩

theorem head_of_properties {entries : List (CodePoints × PyValue β)} {ts : List Token}
    (h : Spells env (.properties entries) ts) :
    ∃ t more, ts = t :: more ∧ t.type ≠ .rbrace := by
  have hname : ∀ {t : Token} {name : CodePoints}, propertyName? t.type = some name →
      t.type ≠ .rbrace := by
    intro t name hname htype
    rw [htype] at hname
    cases hname
  cases h with
  | lastProperty hkey _ _ => exact ⟨_, _, rfl, hname hkey⟩
  | nextProperty hkey _ _ => exact ⟨_, _, rfl, hname hkey⟩

/-- The parser reads the phrase off its tokens and leaves the others. -/
def Parsed (env : Env β) : Phrase β → List Token → Prop
  | .value v, ts => ∀ fuel rest, 2 * ts.length + 1 ≤ fuel →
    parseValue env fuel (ts ++ rest) = .ok (v, rest)
  | .properties more, ts => ∀ fuel entries rest, 2 * ts.length + 1 ≤ fuel →
    parsePairs env fuel entries (ts ++ rest) = .ok (.dict (Dict.update entries more), rest)
  | .items more, ts => ∀ fuel items rest, 2 * ts.length + 2 ≤ fuel →
    parseItems env fuel items (ts ++ rest) = .ok (.list (items ++ more), rest)
  | .call name v, ts => ∀ fuel rest, 2 * ts.length + 1 ≤ fuel →
    parseConstructor env fuel name (ts ++ rest) = .ok (v, rest)

theorem parsed_object {entries : List (CodePoints × PyValue β)} {ts : List Token} {p : ℕ}
    (hentries : Spells env (.properties entries) ts) (ih : Parsed env (.properties entries) ts) :
    Parsed env (.value (.dict (Dict.ofEntries entries))) (⟨.lbrace, p⟩ :: ts) := by
  rintro (_ | fuel) rest hfuel
  · omega
  rw [List.length_cons] at hfuel
  obtain ⟨⟨type, q⟩, more, rfl, htype⟩ := head_of_properties hentries
  have hmore := ih fuel [] rest (by omega)
  cases type <;> first | exact absurd rfl htype | exact hmore

theorem parsed_array {items : List (PyValue β)} {ts : List Token} {p : ℕ}
    (hitems : Spells env (.items items) ts) (ih : Parsed env (.items items) ts) :
    Parsed env (.value (.list items)) (⟨.lbracket, p⟩ :: ts) := by
  rintro (_ | fuel) rest hfuel
  · omega
  rw [List.length_cons] at hfuel
  obtain ⟨⟨type, q⟩, more, rfl, htype⟩ := head_of_items hitems
  have hmore := ih fuel [] rest (by omega)
  cases type <;> first | exact absurd rfl htype | exact hmore

theorem parsed_keyword {name : List Char} {v : PyValue β} {p : ℕ} (hname : keyword? name = some v) :
    Parsed env (.value v) [⟨.identifier name, p⟩] := by
  rintro (_ | fuel) rest hfuel
  · omega
  change parseValue env (fuel + 1) (⟨.identifier name, p⟩ :: rest) = .ok (v, rest)
  unfold parseValue
  simp only [hname]

theorem parsed_newCall {name : List Char} {v : PyValue β} {ts : List Token} {p q : ℕ}
    (ih : Parsed env (.call name v) ts) :
    Parsed env (.value v) (⟨.identifier ['n', 'e', 'w'], p⟩ :: ⟨.identifier name, q⟩ :: ts) := by
  rintro (_ | fuel) rest hfuel
  · omega
  simp only [List.length_cons] at hfuel
  exact ih fuel rest (by omega)

theorem parsed_directCall {name : List Char} {v : PyValue β} {ts : List Token} {p : ℕ}
    (hname : (keyword? name : Option (PyValue β)) = none) (hnew : name ≠ ['n', 'e', 'w'])
    (hcall : Spells env (.call name v) ts) (ih : Parsed env (.call name v) ts) :
    Parsed env (.value v) (⟨.identifier name, p⟩ :: ts) := by
  rintro (_ | fuel) rest hfuel
  · omega
  rw [List.length_cons] at hfuel
  have hparen : (current (ts ++ rest)).type = .lparen := by
    cases hcall <;> rfl
  change parseValue env (fuel + 1) (⟨.identifier name, p⟩ :: (ts ++ rest)) = .ok (v, rest)
  unfold parseValue
  simp only [hname, if_neg hnew, if_pos hparen]
  exact ih fuel rest (by omega)

theorem parsed_lastProperty {key : Token} {name : CodePoints} {v : PyValue β} {ts close : List Token}
    {p : ℕ} (hkey : propertyName? key.type = some name) (hclose : Closes .rbrace close)
    (ih : Parsed env (.value v) ts) :
    Parsed env (.properties [(name, v)]) (key :: ⟨.colon, p⟩ :: (ts ++ close)) := by
  rintro (_ | fuel) entries rest hfuel
  · omega
  simp only [List.length_cons, List.length_append] at hfuel
  have hvalue := ih fuel (close ++ rest) (by omega)
  rw [List.cons_append, List.cons_append, List.append_assoc]
  unfold parsePairs
  simp only [current, List.headD_cons, hkey, List.tail_cons, expect_cons]
  change (parseValue env fuel (ts ++ (close ++ rest)) >>= _) = _
  rw [hvalue]
  obtain ⟨r, rfl | ⟨q, rfl⟩⟩ := hclose <;> rfl

theorem parsed_nextProperty {key : Token} {name : CodePoints} {v : PyValue β} {ts more : List Token}
    {p q : ℕ} {entries : List (CodePoints × PyValue β)} (hkey : propertyName? key.type = some name)
    (hmore : Spells env (.properties entries) more) (ih : Parsed env (.value v) ts)
    (ihmore : Parsed env (.properties entries) more) :
    Parsed env (.properties ((name, v) :: entries))
      (key :: ⟨.colon, p⟩ :: (ts ++ ⟨.comma, q⟩ :: more)) := by
  rintro (_ | fuel) before rest hfuel
  · omega
  simp only [List.length_cons, List.length_append] at hfuel
  have hvalue := ih fuel (⟨.comma, q⟩ :: (more ++ rest)) (by omega)
  have hentries := ihmore fuel (Dict.set before name v) rest (by omega)
  rw [List.cons_append, List.cons_append, List.append_assoc, List.cons_append]
  unfold parsePairs
  simp only [current, List.headD_cons, hkey, List.tail_cons, expect_cons]
  change (parseValue env fuel (ts ++ (⟨.comma, q⟩ :: (more ++ rest))) >>= _) = _
  rw [hvalue]
  obtain ⟨⟨type, r⟩, more, rfl, htype⟩ := head_of_properties hmore
  cases type <;> first | exact absurd rfl htype | exact hentries

theorem parsed_lastItem {v : PyValue β} {ts close : List Token} (hclose : Closes .rbracket close)
    (ih : Parsed env (.value v) ts) : Parsed env (.items [v]) (ts ++ close) := by
  rintro (_ | fuel) items rest hfuel
  · omega
  simp only [List.length_append] at hfuel
  have hvalue := ih fuel (close ++ rest) (by omega)
  rw [List.append_assoc]
  unfold parseItems
  rw [hvalue]
  obtain ⟨r, rfl | ⟨q, rfl⟩⟩ := hclose <;> rfl

theorem parsed_nextItem {v : PyValue β} {ts more : List Token} {q : ℕ} {items : List (PyValue β)}
    (hmore : Spells env (.items items) more) (ih : Parsed env (.value v) ts)
    (ihmore : Parsed env (.items items) more) :
    Parsed env (.items (v :: items)) (ts ++ ⟨.comma, q⟩ :: more) := by
  rintro (_ | fuel) before rest hfuel
  · omega
  simp only [List.length_append, List.length_cons] at hfuel
  have hvalue := ih fuel (⟨.comma, q⟩ :: (more ++ rest)) (by omega)
  have hitems := ihmore fuel (before ++ [v]) rest (by omega)
  rw [List.append_assoc, List.singleton_append] at hitems
  rw [List.append_assoc, List.cons_append]
  unfold parseItems
  rw [hvalue]
  obtain ⟨⟨type, r⟩, more, rfl, htype⟩ := head_of_items hmore
  cases type <;> first | exact absurd rfl htype | exact hitems

theorem parsed_oneArgument {kind : Constructor} {name : List Char} {arg v : PyValue β}
    {ts : List Token} {p q : ℕ}
    (hkind : constructorOf? (env.unicode.lower (String.ofList name)) = some kind)
    (hbuilt : construct env kind name arg = .ok v) (ih : Parsed env (.value arg) ts) :
    Parsed env (.call name v) (⟨.lparen, p⟩ :: (ts ++ [⟨.rparen, q⟩])) := by
  rintro (_ | fuel) rest hfuel
  · omega
  simp only [List.length_cons, List.length_append] at hfuel
  have harg := ih fuel (⟨.rparen, q⟩ :: rest) (by omega)
  rw [List.cons_append, List.append_assoc, List.singleton_append]
  unfold parseConstructor
  simp only [expect_cons, hkind]
  change (parseValue env fuel (ts ++ ⟨.rparen, q⟩ :: rest) >>= _) = _
  rw [harg]
  have hreturn : (do let built ← construct env kind name arg; pure (built, rest)) = .ok (v, rest) := by
    rw [hbuilt]
    rfl
  cases kind <;> exact hreturn

theorem parsed_twoArguments {name : List Char} {t i v : PyValue β} {ts ts' : List Token} {p q r : ℕ}
    (hkind : constructorOf? (env.unicode.lower (String.ofList name)) = some .timestamp)
    (hbuilt : constructTimestamp env t i = .ok v) (iht : Parsed env (.value t) ts)
    (ihi : Parsed env (.value i) ts') :
    Parsed env (.call name v) (⟨.lparen, p⟩ :: (ts ++ ⟨.comma, q⟩ :: (ts' ++ [⟨.rparen, r⟩]))) := by
  rintro (_ | fuel) rest hfuel
  · omega
  simp only [List.length_cons, List.length_append] at hfuel
  have ht := iht fuel (⟨.comma, q⟩ :: (ts' ++ ⟨.rparen, r⟩ :: rest)) (by omega)
  have hi := ihi fuel (⟨.rparen, r⟩ :: rest) (by omega)
  rw [List.cons_append, List.append_assoc, List.cons_append, List.append_assoc, List.singleton_append]
  unfold parseConstructor
  simp only [expect_cons, hkind]
  change (parseValue env fuel (ts ++ ⟨.comma, q⟩ :: (ts' ++ ⟨.rparen, r⟩ :: rest)) >>= _) = _
  rw [ht]
  change (parseValue env fuel (ts' ++ ⟨.rparen, r⟩ :: rest) >>= _) = _
  rw [hi]
  change (constructTimestamp env t i >>= _) = _
  rw [hbuilt]
  rfl

theorem parsed {phrase : Phrase β} {ts : List Token} (h : Spells env phrase ts) :
    Parsed env phrase ts := by
  induction h with
  | string =>
    rintro (_ | fuel) rest hfuel
    · omega
    · rfl
  | number =>
    rintro (_ | fuel) rest hfuel
    · omega
    · rfl
  | keyword hname => exact parsed_keyword hname
  | emptyObject =>
    rintro (_ | fuel) rest hfuel
    · omega
    · rfl
  | object hentries ih => exact parsed_object hentries ih
  | emptyArray =>
    rintro (_ | fuel) rest hfuel
    · omega
    · rfl
  | array hitems ih => exact parsed_array hitems ih
  | newCall _ ih => exact parsed_newCall ih
  | directCall hname hnew hcall ih => exact parsed_directCall hname hnew hcall ih
  | lastProperty hkey _ hclose ih => exact parsed_lastProperty hkey hclose ih
  | nextProperty hkey _ hmore ih ihmore => exact parsed_nextProperty hkey hmore ih ihmore
  | lastItem _ hclose ih => exact parsed_lastItem hclose ih
  | nextItem _ hmore ih ihmore => exact parsed_nextItem hmore ih ihmore
  | oneArgument hkind _ hbuilt ih => exact parsed_oneArgument hkind hbuilt ih
  | twoArguments hkind _ _ hbuilt iht ihi => exact parsed_twoArguments hkind hbuilt iht ihi

/-- The parser returns a value exactly if the tokens in front of the rest spell it. -/
theorem value_eq_ok_iff {tokens rest : List Token} {v : PyValue β} :
    value env tokens = .ok (v, rest) ↔ ∃ ts, tokens = ts ++ rest ∧ Spells env (.value v) ts := by
  constructor
  · exact spells_of_value
  · rintro ⟨ts, rfl, hts⟩
    exact parsed hts _ rest (by unfold enough; rw [List.length_append]; omega)

end

end AltrStream.Connectors.Shell
