import AltrStream.Connectors.ShellCommands
import AltrStream.Connectors.ShellJson
import Mathlib.Data.List.Nodup

/-! # Shell syntax and structured commands

A JSON object as the argument of a shell command against the same text in a structured
command, which `json.loads` reads. The two agree unless a string writes a character as
the two escapes of a surrogate pair: the shell keeps both code units.
-/
namespace AltrStream.Python
open Foundations

/-! ### Escaped surrogate pairs -/

def Piece.isHigh : Piece → Bool
  | .unit _ _ _ _ code _ => isHighSurrogate code
  | _ => false

def Piece.isLow : Piece → Bool
  | .unit _ _ _ _ code _ => isLowSurrogate code
  | _ => false

/-- Two escapes right after each other are a surrogate pair. -/
def pairedPieces : List Piece → Bool
  | high :: low :: rest => (high.isHigh && low.isLow) || pairedPieces (low :: rest)
  | _ => false

/-- A character is no surrogate. -/
theorem not_surrogate (c : Char) : isHighSurrogate c.toNat = false ∧ isLowSurrogate c.toNat = false := by
  have hvalid : c.toNat < 0xD800 ∨ 0xDFFF < c.toNat ∧ c.toNat < 0x110000 := c.valid
  unfold isHighSurrogate isLowSurrogate
  simp only [Bool.and_eq_false_iff, decide_eq_false_iff_not]
  omega

theorem Piece.isHigh_eq (piece : Piece) : piece.isHigh = isHighSurrogate piece.code := by
  cases piece with
  | plain c => exact (not_surrogate c).1.symm
  | escape _ char => exact (not_surrogate char).1.symm
  | unit => rfl

theorem Piece.isLow_eq (piece : Piece) : piece.isLow = isLowSurrogate piece.code := by
  cases piece with
  | plain c => exact (not_surrogate c).2.symm
  | escape _ char => exact (not_surrogate char).2.symm
  | unit => rfl

theorem length_joinPairs (s : CodePoints) : (joinPairs s).length ≤ s.length := by
  fun_induction joinPairs s with
  | case1 high low rest _ ih =>
    simp only [List.length_cons] at ih ⊢
    omega
  | case2 high low rest _ ih =>
    simp only [List.length_cons] at ih ⊢
    omega
  | case3 => exact le_rfl

/-- Joining changes a string exactly if it has something to join. -/
theorem joinPairs_eq_self_iff (pieces : List Piece) :
    joinPairs (pieces.map Piece.code) = pieces.map Piece.code ↔ pairedPieces pieces = false := by
  induction pieces with
  | nil => simp [joinPairs, pairedPieces]
  | cons high pieces ih =>
    cases pieces with
    | nil => simp [joinPairs, pairedPieces]
    | cons low rest =>
      rw [List.map_cons, List.map_cons, joinPairs, pairedPieces, high.isHigh_eq, low.isLow_eq]
      cases hpair : isHighSurrogate high.code && isLowSurrogate low.code with
      | true =>
        have hlength := length_joinPairs (rest.map Piece.code)
        simp only [if_true, Bool.true_or, Bool.true_eq_false, iff_false]
        intro heq
        have := congrArg List.length heq
        simp only [List.length_cons] at this
        omega
      | false =>
        simp only [Bool.false_eq_true, if_false, Bool.false_or, List.cons.injEq, true_and]
        exact ih

namespace JsonText

def isObject : JsonText .value → Bool
  | emptyObject _ => true
  | object _ => true
  | _ => false

/-- A string of the tree writes a surrogate pair as two escapes. -/
def hasPair {kind : JsonKind} : JsonText kind → Bool
  | string pieces => pairedPieces pieces
  | array items => items.hasPair
  | object members => members.hasPair
  | lastItem _ item _ => item.hasPair
  | nextItem _ item _ more => item.hasPair || more.hasPair
  | lastMember _ key _ _ item _ => pairedPieces key || item.hasPair
  | nextMember _ key _ _ item _ more => pairedPieces key || (item.hasPair || more.hasPair)
  | _ => false

/-- The code units of the members' keys. -/
def memberKeys {kind : JsonKind} : JsonText kind → List CodePoints
  | lastMember _ key _ _ _ _ => [key.map Piece.code]
  | nextMember _ key _ _ _ _ more => key.map Piece.code :: more.memberKeys
  | _ => []

/-- No object of the tree has a key twice, as JSON reads keys. -/
def DistinctKeys {kind : JsonKind} : JsonText kind → Prop
  | array items => items.DistinctKeys
  | object members => (members.memberKeys.map joinPairs).Nodup ∧ members.DistinctKeys
  | lastItem _ item _ => item.DistinctKeys
  | nextItem _ item _ more => item.DistinctKeys ∧ more.DistinctKeys
  | lastMember _ _ _ _ item _ => item.DistinctKeys
  | nextMember _ _ _ _ item _ more => item.DistinctKeys ∧ more.DistinctKeys
  | _ => True

section
variable {β : Type} {u : Unicode}

/-- Without such a pair it makes no difference how strings are read. -/
theorem value_of_hasPair {kind : JsonKind} {t : JsonText kind} (h : t.hasPair = false) :
    (t.value u id : Option (kind.Meaning β)) = t.value u joinPairs := by
  induction t with
  | null => rfl
  | bool b => rfl
  | number n => rfl
  | string pieces => rw [value, value, (joinPairs_eq_self_iff pieces).2 h, id]
  | emptyArray inside => rfl
  | emptyObject inside => rfl
  | array items ih => rw [value, value, ih h]
  | object members ih => rw [value, value, ih h]
  | lastItem before item after ih => rw [value, value, ih h]
  | nextItem before item after more ih ihmore =>
    obtain ⟨hitem, hmore⟩ := Bool.or_eq_false_iff.1 h
    rw [value, value, ih hitem, ihmore hmore]
  | lastMember before key colon behind item after ih =>
    obtain ⟨hkey, hitem⟩ := Bool.or_eq_false_iff.1 h
    rw [value, value, ih hitem, (joinPairs_eq_self_iff key).2 hkey, id]
  | nextMember before key colon behind item after more ih ihmore =>
    obtain ⟨hkey, hrest⟩ := Bool.or_eq_false_iff.1 h
    obtain ⟨hitem, hmore⟩ := Bool.or_eq_false_iff.1 hrest
    rw [value, value, ih hitem, ihmore hmore, (joinPairs_eq_self_iff key).2 hkey, id]

theorem keys_value {read : CodePoints → CodePoints} :
    ∀ (members : JsonText .members) {entries : List (CodePoints × PyValue β)},
      members.value u read = some entries → Dict.keys entries = members.memberKeys.map read
  | lastMember before key colon behind item after, entries, h => by
    obtain ⟨v, -, rfl⟩ := Option.map_eq_some_iff.1 h
    rfl
  | nextMember before key colon behind item after more, entries, h => by
    obtain ⟨v, -, hrest⟩ := Option.bind_eq_some_iff.1 h
    obtain ⟨es, hes, rfl⟩ := Option.map_eq_some_iff.1 hrest
    exact congrArg (read (key.map Piece.code) :: ·) (keys_value more hes)

/-- Numbers decide whether a tree has a value, not strings. -/
theorem isSome_value (read read' : CodePoints → CodePoints) {kind : JsonKind} (t : JsonText kind) :
    (t.value u read : Option (kind.Meaning β)).isSome =
      (t.value u read' : Option (kind.Meaning β)).isSome := by
  have hboth : ∀ {α γ δ : Type} (a : Option α) (b : Option γ) (f : α → γ → δ),
      (a.bind fun x => b.map (f x)).isSome = (a.isSome && b.isSome) := by
    intro α γ δ a b f
    cases a <;> simp
  induction t with
  | null => rfl
  | bool b => rfl
  | number n => rfl
  | string pieces => rfl
  | emptyArray inside => rfl
  | emptyObject inside => rfl
  | array items ih => simpa [value] using ih
  | object members ih => simpa [value] using ih
  | lastItem before item after ih => simpa [value] using ih
  | nextItem before item after more ih ihmore => rw [value, value, hboth, hboth, ih, ihmore]
  | lastMember before key colon behind item after ih => simpa [value] using ih
  | nextMember before key colon behind item after more ih ihmore =>
    rw [value, value, hboth, hboth, ih, ihmore]

/-- If both ways to read the strings give the same value, no string has a pair. -/
theorem hasPair_of_value {kind : JsonKind} {t : JsonText kind} (hdistinct : t.DistinctKeys) :
    ∀ v : kind.Meaning β, t.value u id = some v → t.value u joinPairs = some v → t.hasPair = false := by
  induction t with
  | null => exact fun _ _ _ => rfl
  | bool b => exact fun _ _ _ => rfl
  | number n => exact fun _ _ _ => rfl
  | string pieces =>
    intro v hraw hjoined
    rw [value, Option.some.injEq] at hraw hjoined
    subst hraw
    exact (joinPairs_eq_self_iff pieces).1 (PyValue.str.inj hjoined)
  | emptyArray inside => exact fun _ _ _ => rfl
  | emptyObject inside => exact fun _ _ _ => rfl
  | array items ih =>
    intro v hraw hjoined
    obtain ⟨vs, hvs, rfl⟩ := Option.map_eq_some_iff.1 hraw
    obtain ⟨vs', hvs', hlist⟩ := Option.map_eq_some_iff.1 hjoined
    obtain rfl := PyValue.list.inj hlist
    exact ih hdistinct _ hvs hvs'
  | object members ih =>
    intro v hraw hjoined
    obtain ⟨es, hes, rfl⟩ := Option.map_eq_some_iff.1 hraw
    obtain ⟨es', hes', hdict⟩ := Option.map_eq_some_iff.1 hjoined
    have hkeys' := keys_value members hes'
    have hkeys := keys_value members hes
    rw [List.map_id] at hkeys
    have hnodup' : (Dict.keys es').Nodup := hkeys' ▸ hdistinct.1
    have hnodup : (Dict.keys es).Nodup := by
      rw [hkeys]
      exact List.Nodup.of_map joinPairs hdistinct.1
    have hsame := PyValue.dict.inj hdict
    rw [Dict.ofEntries_of_nodup hnodup, Dict.ofEntries_of_nodup hnodup'] at hsame
    exact ih hdistinct.2 es hes (hsame ▸ hes')
  | lastItem before item after ih =>
    intro vs hraw hjoined
    obtain ⟨v, hv, rfl⟩ := Option.map_eq_some_iff.1 hraw
    obtain ⟨v', hv', hlist⟩ := Option.map_eq_some_iff.1 hjoined
    obtain rfl := (List.cons.inj hlist).1
    exact ih hdistinct _ hv hv'
  | nextItem before item after more ih ihmore =>
    intro vs hraw hjoined
    obtain ⟨v, hv, hraw⟩ := Option.bind_eq_some_iff.1 hraw
    obtain ⟨items, hitems, rfl⟩ := Option.map_eq_some_iff.1 hraw
    obtain ⟨v', hv', hjoined⟩ := Option.bind_eq_some_iff.1 hjoined
    obtain ⟨items', hitems', hlist⟩ := Option.map_eq_some_iff.1 hjoined
    obtain ⟨rfl, rfl⟩ := List.cons.inj hlist
    exact Bool.or_eq_false_iff.2 ⟨ih hdistinct.1 _ hv hv', ihmore hdistinct.2 _ hitems hitems'⟩
  | lastMember before key colon behind item after ih =>
    intro es hraw hjoined
    obtain ⟨v, hv, rfl⟩ := Option.map_eq_some_iff.1 hraw
    obtain ⟨v', hv', hlist⟩ := Option.map_eq_some_iff.1 hjoined
    obtain ⟨hkey, rfl⟩ := Prod.mk.inj (List.cons.inj hlist).1
    exact Bool.or_eq_false_iff.2 ⟨(joinPairs_eq_self_iff key).1 hkey, ih hdistinct _ hv hv'⟩
  | nextMember before key colon behind item after more ih ihmore =>
    intro es hraw hjoined
    obtain ⟨v, hv, hraw⟩ := Option.bind_eq_some_iff.1 hraw
    obtain ⟨entries, hentries, rfl⟩ := Option.map_eq_some_iff.1 hraw
    obtain ⟨v', hv', hjoined⟩ := Option.bind_eq_some_iff.1 hjoined
    obtain ⟨entries', hentries', hlist⟩ := Option.map_eq_some_iff.1 hjoined
    obtain ⟨hentry, rfl⟩ := List.cons.inj hlist
    obtain ⟨hkey, rfl⟩ := Prod.mk.inj hentry
    exact Bool.or_eq_false_iff.2 ⟨(joinPairs_eq_self_iff key).1 hkey, Bool.or_eq_false_iff.2
      ⟨ih hdistinct.1 _ hv hv', ihmore hdistinct.2 _ hentries hentries'⟩⟩

end

end JsonText

end AltrStream.Python

namespace AltrStream.Connectors.Shell
open Foundations Python Shell.Parser Shell.Lexer JsonDecoder

section
variable {β : Type}

/-- `db.<name>.find(<argument>)` -/
def findText (name argument : List Char) : List Char :=
  ['d', 'b', '.'] ++ (name ++ (['.', 'f', 'i', 'n', 'd', '('] ++ (argument ++ [')'])))

/-- The shell reads that value off a text that is an argument of a command: wherever an argument
stands, and as the filter of a search. -/
structure ReadsArgument (env : Env β) (argument : List Char) (v : PyValue β) : Prop where
  anywhere : ∀ length rest more, Lexes env.unicode length rest more →
    ∃ tokens, Lexes env.unicode length (argument ++ rest) tokens ∧ value env tokens = .ok (v, more)
  find : ∀ name, name ≠ [] → (∀ c ∈ name, c.toNat < 128 ∧ c.isAlpha = true) →
    parseMongodbShellQuery env (findText name argument) =
      .ok (.find, [(codePoints "collection", .str (name.map Char.toNat)), (codePoints "filter", v)])

variable {env : Env β}

/-- A text of an object has tokens of its own, whatever stands behind it. -/
theorem lexed_isObject (hu : AsciiTables env.unicode) (before after : Blanks) {t : JsonText .value}
    (hobject : t.isObject = true) {v : PyValue β} (hv : t.value env.unicode id = some v) :
    (∃ entries, v = .dict entries) ∧ ∀ length rest more, Lexes env.unicode length rest more →
      ∃ ts, Lexes env.unicode length (before.1 ++ (t.text ++ after.1) ++ rest) (ts ++ more) ∧
        Spells env (.value v) ts := by
  cases t with
  | emptyObject inside =>
    obtain rfl := Option.some.inj hv
    refine ⟨⟨_, rfl⟩, fun length rest more h => ?_⟩
    obtain ⟨q, hq⟩ := lexes_single (c := '}') rfl (by decide) (by decide) (lexes_blanks after h)
    obtain ⟨p, hp⟩ := lexes_single (c := '{') rfl (by decide) (by decide) (lexes_blanks inside hq)
    refine ⟨[⟨.lbrace, p⟩, ⟨.rbrace, q⟩], ?_, .emptyObject⟩
    simpa [JsonText.text] using lexes_blanks before hp
  | object members =>
    obtain ⟨entries, hentries, rfl⟩ := Option.map_eq_some_iff.1 hv
    refine ⟨⟨_, rfl⟩, fun length rest more h => ?_⟩
    obtain ⟨ts, hlexes, hspells⟩ :=
      lexed hu members entries hentries length _ more (lexes_blanks after h)
    obtain ⟨p, hp⟩ := lexes_single (c := '{') rfl (by decide) (by decide) hlexes
    refine ⟨⟨.lbrace, p⟩ :: ts, ?_, .object hspells⟩
    simpa [JsonText.text] using lexes_blanks before hp
  | _ => cases hobject

/-- The tokens of a search for a document. -/
theorem parse_find (hu : AsciiTables env.unicode) {name : List Char} {entries : Spec β}
    {ts : List Token} (hts : Spells env (.value (.dict entries)) ts) (p₁ p₂ p₃ p₄ p₅ p₆ p₇ p₈ : ℕ) :
    parse env (⟨.identifier ['d', 'b'], p₁⟩ :: ⟨.dot, p₂⟩ :: ⟨.identifier name, p₃⟩ :: ⟨.dot, p₄⟩ ::
        ⟨.identifier ['f', 'i', 'n', 'd'], p₅⟩ :: ⟨.lparen, p₆⟩ :: (ts ++ [⟨.rparen, p₇⟩, ⟨.eof, p₈⟩])) =
      .ok (.find, [(codePoints "collection", .str (name.map Char.toNat)),
        (codePoints "filter", .dict entries)]) := by
  have hoperation : operationOf? (env.unicode.lower (String.ofList ['f', 'i', 'n', 'd'])) =
      some .find := by
    rw [hu.lower _ (by decide)]
    decide
  have hargs : parseArgs env .find (ts ++ [⟨.rparen, p₇⟩, ⟨.eof, p₈⟩]) =
      .ok ([(codePoints "filter", .dict entries)], [⟨.rparen, p₇⟩, ⟨.eof, p₈⟩]) := by
    have hvalue : value env (ts ++ [⟨.rparen, p₇⟩, ⟨.eof, p₈⟩]) =
        .ok (.dict entries, [⟨.rparen, p₇⟩, ⟨.eof, p₈⟩]) := value_eq_ok_iff.2 ⟨ts, rfl, hts⟩
    have hdocument : document env "MongoDB 'find()' filter must be a document object"
        (ts ++ [⟨.rparen, p₇⟩, ⟨.eof, p₈⟩]) = .ok (entries, [⟨.rparen, p₇⟩, ⟨.eof, p₈⟩]) := by
      rw [document, hvalue]
      rfl
    have hsome : (current (ts ++ [⟨.rparen, p₇⟩, ⟨.eof, p₈⟩])).type ≠ .rparen := by
      obtain ⟨p, more, rfl⟩ := brace_of_document hts
      rintro ⟨⟩
    rw [parseArgs, parseFindArgs, if_neg hsome, hdocument]
    rfl
  have hidentifier : ∀ message name p rest,
      expectIdentifier message (⟨.identifier name, p⟩ :: rest) = .ok (name, rest) := fun _ _ _ _ => rfl
  unfold parse
  simp only [current, List.headD_cons, ne_eq, not_true_eq_false, if_false, List.tail_cons, expect_cons,
    hidentifier, bind, Except.bind, hoperation, hargs]
  rfl

theorem lexes_dot {u : Unicode} {length : ℕ} {rest : List Char} {tokens : List Token}
    (h : Lexes u length rest tokens) : ∃ p, Lexes u length ('.' :: rest) (⟨.dot, p⟩ :: tokens) :=
  lexes_single rfl (by decide) (by decide) h

/-- The shell reads an object as its tree without joining pairs. -/
theorem readsArgument_value (hu : AsciiTables env.unicode) (before after : Blanks)
    {t : JsonText .value} (hobject : t.isObject = true) {v : PyValue β}
    (hv : t.value env.unicode id = some v) :
    ReadsArgument env (before.1 ++ (t.text ++ after.1)) v := by
  obtain ⟨⟨entries, rfl⟩, hlexed⟩ := lexed_isObject hu before after hobject hv
  refine ⟨fun length rest more h => ?_, fun name hsome hname => ?_⟩
  · obtain ⟨ts, hts, hspells⟩ := hlexed length rest more h
    exact ⟨ts ++ more, hts, value_eq_ok_iff.2 ⟨ts, rfl, hspells⟩⟩
  · have hdot : isIdentifierChar env.unicode '.' = false := by
      rw [isIdentifierChar, hu.isalnum '.' (by decide)]
      decide
    have hparen : isIdentifierChar env.unicode '(' = false := by
      rw [isIdentifierChar, hu.isalnum '(' (by decide)]
      decide
    have hhead : ∀ {c : Char} {rest : List Char}, isIdentifierChar env.unicode c = false →
        ∀ d ∈ (c :: rest).head?, isIdentifierChar env.unicode d = false := by
      rintro c rest hc d ⟨⟩
      exact hc
    obtain ⟨length, hlength⟩ : ∃ length, length =
      (findText name (before.1 ++ (t.text ++ after.1))).length := ⟨_, rfl⟩
    obtain ⟨p₇, h₇⟩ := lexes_single (c := ')') rfl (by decide) (by decide)
      (lexes_nil (u := env.unicode) length)
    obtain ⟨ts, hts, hspells⟩ := hlexed length [')'] _ h₇
    obtain ⟨p₆, h₆⟩ := lexes_single (c := '(') rfl (by decide) (by decide) hts
    obtain ⟨p₅, h₅⟩ := lexes_word hu ['f', 'i', 'n', 'd'] (by decide) (by decide)
      (hhead hparen) h₆
    obtain ⟨p₄, h₄⟩ := lexes_dot h₅
    obtain ⟨p₃, h₃⟩ := lexes_word hu name hsome hname (hhead hdot) h₄
    obtain ⟨p₂, h₂⟩ := lexes_dot h₃
    obtain ⟨p₁, h₁⟩ := lexes_word hu ['d', 'b'] (by decide) (by decide)
      (hhead hdot) h₂
    have htext : findText name (before.1 ++ (t.text ++ after.1)) = ['d', 'b'] ++ ('.' :: (name ++
        ('.' :: (['f', 'i', 'n', 'd'] ++ ('(' :: (before.1 ++ (t.text ++ after.1) ++ [')'])))))) := by
      simp [findText]
    rw [← htext, hlength] at h₁
    have hblank : stripChars (findText name (before.1 ++ (t.text ++ after.1))) ≠ [] := by
      rw [Ne, stripChars_eq_nil]
      exact fun h => absurd (h 'd' List.mem_cons_self) (by decide)
    rw [parseMongodbShellQuery, if_neg hblank, h₁.tokenize]
    simp only [bind, Except.bind]
    exact parse_find hu hspells p₁ p₂ p₃ p₄ p₅ p₆ p₇ _

/-- The shell and `json.loads` read the same object if and only if no string of it writes a
surrogate pair as two escapes. -/
theorem readsArgument_iff (env : Env β) (hu : AsciiTables env.unicode) (before after : Blanks)
    (t : JsonText .value) (hobject : t.isObject = true) (hdistinct : t.DistinctKeys) {v : PyValue β}
    (hloads : loads env.unicode (before.1 ++ (t.text ++ after.1)) = some v) :
    ReadsArgument env (before.1 ++ (t.text ++ after.1)) v ↔ t.hasPair = false := by
  rw [JsonText.loads_text] at hloads
  obtain ⟨w, hw⟩ : ∃ w, (t.value env.unicode id : Option (PyValue β)) = some w := by
    have hsome := JsonText.isSome_value (β := β) (u := env.unicode) joinPairs id t
    rw [hloads] at hsome
    exact Option.isSome_iff_exists.1 hsome.symm
  have hreads := readsArgument_value hu before after hobject hw
  constructor
  · intro h
    have hboth := (hreads.find ['c'] (by decide) (by decide)).symm.trans
      (h.find ['c'] (by decide) (by decide))
    have hsame : w = v := by
      have hspec := (Prod.mk.inj (Except.ok.inj hboth)).2
      exact (Prod.mk.inj (List.cons.inj (List.cons.inj hspec).2).1).2
    exact JsonText.hasPair_of_value hdistinct v (hsame ▸ hw) hloads
  · intro h
    have hsame := (JsonText.value_of_hasPair h).symm.trans hw
    rw [hloads] at hsame
    rw [Option.some.inj hsame]
    exact hreads

end

def noBlanks : Blanks := ⟨[], by simp⟩

/-- `{"a": <string>}` -/
def singleton (pieces : List Piece) : JsonText .value :=
  .object (.lastMember noBlanks [.plain 'a' (by decide)] noBlanks ⟨[' '], by decide⟩ (.string pieces)
    noBlanks)

theorem singleton_distinctKeys (pieces : List Piece) : (singleton pieces).DistinctKeys :=
  And.intro (List.nodup_singleton _) trivial

/-- `{"a": "b"}` is the same for both. -/
theorem readsArgument_iff_plain :
    ReadsArgument bareEnv ['{', '"', 'a', '"', ':', ' ', '"', 'b', '"', '}']
      (.dict [([97], .str [98])]) := by
  have hloads : loads .ascii (noBlanks.1 ++ ((singleton [.plain 'b' (by decide)]).text ++ noBlanks.1)) =
      some (PyValue.dict [([97], PyValue.str [98])] : PyValue Unit) := rfl
  exact (readsArgument_iff bareEnv asciiTables_ascii noBlanks noBlanks
    (singleton [.plain 'b' (by decide)]) rfl (singleton_distinctKeys _) hloads).2 rfl

/-- `{"a": "\ud83d\ude00"}` has one character for `json.loads` and two for the shell. -/
theorem not_readsArgument_escapedPair :
    ∃ (t : JsonText .value) (v : PyValue Unit), t.isObject = true ∧ t.DistinctKeys ∧
      t.text = ['{', '"', 'a', '"', ':', ' ', '"', '\\', 'u', 'd', '8', '3', 'd', '\\', 'u', 'd', 'e',
        '0', '0', '"', '}'] ∧ loads .ascii t.text = some v ∧
      v = .dict [([97], .str [0x1F600])] ∧
      parseMongodbShellQuery bareEnv (findText ['c'] t.text) = .ok (.find,
        [(codePoints "collection", .str [99]),
          (codePoints "filter", .dict [([97], .str [0xD83D, 0xDE00])])]) ∧
      ¬ ReadsArgument bareEnv t.text v := by
  have hshell : parseMongodbShellQuery bareEnv (findText ['c'] (singleton
      [.unit 'd' '8' '3' 'd' 0xD83D rfl, .unit 'd' 'e' '0' '0' 0xDE00 rfl]).text) = .ok (.find,
        [(codePoints "collection", .str [99]),
          (codePoints "filter", .dict [([97], .str [0xD83D, 0xDE00])])]) := rfl
  refine ⟨singleton [.unit 'd' '8' '3' 'd' 0xD83D rfl, .unit 'd' 'e' '0' '0' 0xDE00 rfl],
    .dict [([97], .str [0x1F600])], rfl, singleton_distinctKeys _, rfl, rfl, rfl, hshell, fun h => ?_⟩
  have hboth := hshell.symm.trans (h.find ['c'] (by decide) (by decide))
  cases hboth

end AltrStream.Connectors.Shell
