import AltrStream.Lowering.Selects
import Mathlib.Data.List.Chain

/-! # Quotes in the text of a statement

A text as a row of fragments: quoted names, string literals, JSON paths in literals, and
single characters between them. A database reads the fragments back from the text exactly
if the names and keys in them can stand where they are written.
-/
namespace AltrStream.Lowering
open Foundations Python QueryEngine Semantics

/-! ### What a database reads -/

/-- What a text is made of, as far as quotes go. -/
inductive Lexeme where
  | plain (c : Char)
  | identifier (name : List Char)
  | string (value : List Char)
  deriving DecidableEq

/-- What a backslash and a character stand for in a literal of MySQL. -/
def backslashed : Char → List Char
  | '0' => ['\x00']
  | 'b' => ['\x08']
  | 'n' => ['\n']
  | 'r' => ['\r']
  | 't' => ['\t']
  | 'Z' => ['\x1a']
  | '%' => ['\\', '%']
  | '_' => ['\\', '_']
  | c => [c]

/-- A literal of MySQL up to the closing quote, and what follows. -/
def readEscaped : List Char → Option (List Char × List Char)
  | [] => none
  | [c] => if c = '\'' then some ([], []) else none
  | c :: c' :: text =>
    if c = '\\' then (readEscaped text).map fun r => (backslashed c' ++ r.1, r.2)
    else if c ≠ '\'' then (readEscaped (c' :: text)).map fun r => (c :: r.1, r.2)
    else if c' = '\'' then (readEscaped text).map fun r => ('\'' :: r.1, r.2)
    else some ([], c' :: text)

namespace SqlSource

/-- A string literal behind its opening quote. -/
def readString : SqlSource → List Char → Option (List Char × List Char)
  | mysql => readEscaped
  | _ => readQuoted '\''

/-- MySQL lets blanks stand between the parts of a JSON path. -/
def skipBlanks : SqlSource → List Char → List Char
  | mysql, text => text.dropWhile (· ∈ [' ', '\t', '\n', '\r'])
  | _, text => text

/-- The character ends a key that stands without quotes in a JSON path. -/
def endsKey : SqlSource → Char → Bool
  | mysql, c => c ∈ ['.', '[', '*', ' ', '\t', '\n', '\r']
  | _, c => c ∈ ['.', '[']

end SqlSource

/-- The text is read as these lexemes. -/
inductive Lexes (src : SqlSource) : List Char → List Lexeme → Prop
  | nil : Lexes src [] []
  | plain {c : Char} {text : List Char} {ls : List Lexeme} (hc : c ∉ quotes) (h : Lexes src text ls) :
      Lexes src (c :: text) (.plain c :: ls)
  | identifier {text name rest : List Char} {ls : List Lexeme}
      (hname : readQuoted src.nameQuote text = some (name, rest)) (h : Lexes src rest ls) :
      Lexes src (src.nameQuote :: text) (.identifier name :: ls)
  | string {text value rest : List Char} {ls : List Lexeme}
      (hvalue : src.readString text = some (value, rest)) (h : Lexes src rest ls) :
      Lexes src ('\'' :: text) (.string value :: ls)

/-- How the JSON functions of MySQL and SQLite read the keys of a path. -/
structure JsonPaths where
  /-- The characters of a key without quotes for MySQL: the first one, and all of them. -/
  identifierStart : Char → Bool
  identifierPart : Char → Bool
  /-- A key behind its opening double quote, and what follows its closing one. -/
  quotedKey : SqlSource → List Char → Option (List Char × List Char)
  identifierPart_sign : ∀ c ∈ ['.', '[', '*', '"', '\'', '\\', ' ', '\t', '\n', '\r'],
    identifierPart c = false
  quotedKey_length : ∀ {src text key rest}, quotedKey src text = some (key, rest) →
    key.length + rest.length < text.length

namespace JsonPaths
variable (paths : JsonPaths)

/-- A key that may stand without quotes in a path. -/
def Unquoted : SqlSource → List Char → Prop
  | .mysql, key => key.head?.any paths.identifierStart = true ∧ key.all paths.identifierPart = true
  | _, key => key ≠ [] ∧ key.head? ≠ some '"'

/-- The rest of a path is one key after the other. -/
inductive Legs (src : SqlSource) : List Char → List (List Char) → Prop
  | done {text : List Char} (h : src.skipBlanks text = []) : Legs src text []
  | unquoted {text body : List Char} {keys : List (List Char)}
      (hdot : src.skipBlanks text = '.' :: body)
      (hkey : paths.Unquoted src ((src.skipBlanks body).takeWhile (!src.endsKey ·)))
      (h : Legs src ((src.skipBlanks body).dropWhile (!src.endsKey ·)) keys) :
      Legs src text ((src.skipBlanks body).takeWhile (!src.endsKey ·) :: keys)
  | quoted {text body inner key rest : List Char} {keys : List (List Char)}
      (hdot : src.skipBlanks text = '.' :: body) (hquote : src.skipBlanks body = '"' :: inner)
      (hkey : paths.quotedKey src inner = some (key, rest)) (h : Legs src rest keys) :
      Legs src text (key :: keys)

/-- A JSON path to the value below these keys. -/
def ReadsPath (src : SqlSource) (value : List Char) (keys : List (List Char)) : Prop :=
  ∃ text, src.skipBlanks value = '$' :: text ∧ paths.Legs src text keys

/-- A key that is read as it is written: in a literal of its own by PostgreSQL, in a path by the
others. -/
def Takes : SqlSource → List Char → Prop
  | .postgresql, key => '\'' ∉ key
  | .mysql, key => paths.Unquoted .mysql key
  | .sqlite, key => paths.Unquoted .sqlite key ∧ ∀ c ∈ key, c ∉ ['.', '[', '\'']

end JsonPaths

/-! ### What is written -/

inductive Fragment where
  | plain (c : Char)
  | identifier (name : String)
  /-- A string literal around a text as it stands. -/
  | string (value : String)
  /-- A string literal around a JSON path. -/
  | path (keys : List String)
  /-- The escape character of LIKE, as a string literal. -/
  | escape

namespace Fragment

/-- The text below the root of a JSON path. -/
def legs (keys : List String) : List Char := keys.flatMap fun k => '.' :: k.toList

section
variable (src : SqlSource)

def text : Fragment → List Char
  | plain c => [c]
  | identifier name => (src.dialect.quoteIdent name).toList
  | string value => '\'' :: (value.toList ++ ['\''])
  | path keys => '\'' :: '$' :: (legs keys ++ ['\''])
  | escape => src.dialect.likeEscape.toList

/-- The fragments that the lowerer of the source writes. -/
def Fits : Fragment → Prop
  | plain c => c ∉ quotes
  | string _ => src ≠ .mysql
  | path _ => src ≠ .postgresql
  | identifier _ | escape => True

end

section
variable (paths : JsonPaths) (src : SqlSource)

/-- The lexeme is the fragment. -/
def Meets : Fragment → Lexeme → Prop
  | plain c, l => l = .plain c
  | identifier name, l => l = .identifier name.toList
  | string value, l => l = .string value.toList
  | path keys, l => ∃ value, l = .string value ∧ paths.ReadsPath src value (keys.map String.toList)
  | escape, l => l = .string ['\\']

/-- The fragment is read as it is written. -/
def Faithful : Fragment → Prop
  | identifier name => src.Quotable name
  | string value => '\'' ∉ value.toList
  | path keys => ∀ k ∈ keys, paths.Takes src k.toList
  | plain _ | escape => True

end

def isPlain : Fragment → Bool
  | plain _ => true
  | _ => false

/-- No two quoted fragments touch each other. -/
def Apart (f g : Fragment) : Prop := f.isPlain = true ∨ g.isPlain = true

end Fragment

/-- The text is read as these fragments. -/
def ReadsAs (paths : JsonPaths) (src : SqlSource) (fs : List Fragment) (text : List Char) : Prop :=
  ∃ ls, Lexes src text ls ∧ List.Forall₂ (Fragment.Meets paths src) fs ls

/-! ### Quotes -/

section
variable {quote : Char} {text out rest : List Char}

/-- A name whose quotes are doubled is read back in front of any text that does not go on with a
quote. -/
theorem readQuoted_doubled_append (name : List Char) (h : rest.head? ≠ some quote) :
    readQuoted quote (replaceChar quote [quote, quote] name ++ quote :: rest) = some (name, rest) := by
  induction name with
  | nil =>
    cases rest with
    | nil => simp [replaceChar, readQuoted]
    | cons c rest =>
      have hc : c ≠ quote := fun heq => h (congrArg some heq)
      simp [replaceChar, readQuoted, hc]
  | cons c name ih =>
    rw [replaceChar, List.flatMap_cons, ← replaceChar]
    obtain ⟨c', more, hmore⟩ : ∃ c' more,
        replaceChar quote [quote, quote] name ++ quote :: rest = c' :: more :=
      List.exists_cons_of_ne_nil (by simp)
    split_ifs with hc
    · subst hc
      simp [readQuoted, ih]
    · rw [hmore] at ih
      simp [readQuoted, hc, hmore, ih]

theorem replaceChar_of_notMem {c : Char} {t : List Char} (h : c ∉ text) :
    replaceChar c t text = text := by
  induction text with
  | nil => rfl
  | cons d text ih =>
    obtain ⟨hd, htext⟩ := List.ne_and_not_mem_of_not_mem_cons h
    rw [replaceChar, List.flatMap_cons, ← replaceChar, if_neg (Ne.symm hd), ih htext]
    rfl

/-- A name without the quote in it is read back as well. -/
theorem readQuoted_append (hname : quote ∉ text) (h : rest.head? ≠ some quote) :
    readQuoted quote (text ++ quote :: rest) = some (text, rest) := by
  have hread := readQuoted_doubled_append text h
  rwa [replaceChar_of_notMem hname] at hread

/-- What is read stands there with its quotes doubled. -/
theorem readQuoted_eq_doubled (h : readQuoted quote text = some (out, rest)) :
    text = replaceChar quote [quote, quote] out ++ quote :: rest := by
  fun_induction readQuoted quote text generalizing out rest with
  | case1 => cases h
  | case2 =>
    cases h
    rfl
  | case3 c hc => cases h
  | case4 c c' text hc ih =>
    obtain ⟨⟨o, r⟩, hr, heq⟩ := Option.map_eq_some_iff.1 h
    cases heq
    rw [replaceChar, List.flatMap_cons, ← replaceChar, if_neg hc, ih hr]
    rfl
  | case5 c' text hc ih =>
    obtain ⟨⟨o, r⟩, hr, heq⟩ := Option.map_eq_some_iff.1 h
    cases heq
    rw [replaceChar, List.flatMap_cons, ← replaceChar, if_pos rfl, ih hr]
    simp_all
  | case6 c c' text hc hc' =>
    cases h
    simp_all [replaceChar]

end

section
variable {text value rest : List Char}

/-- A literal of MySQL without quotes and backslashes in it. -/
theorem readEscaped_append (hvalue : ∀ c ∈ value, c ≠ '\'' ∧ c ≠ '\\') (h : rest.head? ≠ some '\'') :
    readEscaped (value ++ '\'' :: rest) = some (value, rest) := by
  induction value with
  | nil =>
    cases rest with
    | nil => simp [readEscaped]
    | cons c rest =>
      have hc : c ≠ '\'' := fun heq => h (congrArg some heq)
      simp [readEscaped, hc]
  | cons c value ih =>
    obtain ⟨⟨hquote, hslash⟩, hrest⟩ := List.forall_mem_cons.1 hvalue
    obtain ⟨c', more, hmore⟩ : ∃ c' more, value ++ '\'' :: rest = c' :: more :=
      List.exists_cons_of_ne_nil (by simp)
    have hread := ih hrest
    rw [hmore] at hread
    rw [List.cons_append, hmore, readEscaped, if_neg hslash, if_pos hquote, hread]
    rfl

/-- MySQL's literal of the escape character of LIKE. -/
theorem readEscaped_escape (h : rest.head? ≠ some '\'') :
    readEscaped ('\\' :: '\\' :: '\'' :: rest) = some (['\\'], rest) := by
  have hread := @readEscaped_append [] rest (by simp) h
  rw [List.nil_append] at hread
  rw [readEscaped, if_pos rfl, hread]
  rfl

theorem length_backslashed_le (c : Char) : (backslashed c).length ≤ 2 := by
  unfold backslashed
  split <;> simp

/-- A literal of MySQL is not longer than its text. -/
theorem length_readEscaped (h : readEscaped text = some (value, rest)) :
    value.length + rest.length + 1 ≤ text.length := by
  fun_induction readEscaped text generalizing value rest with
  | case1 => cases h
  | case2 =>
    cases h
    rfl
  | case3 c hc => cases h
  | case4 c' text ih =>
    obtain ⟨⟨o, r⟩, hr, heq⟩ := Option.map_eq_some_iff.1 h
    cases heq
    have hread := ih hr
    have hchar := length_backslashed_le c'
    simp only [List.length_append, List.length_cons]
    omega
  | case5 c c' text hslash hquote ih =>
    obtain ⟨⟨o, r⟩, hr, heq⟩ := Option.map_eq_some_iff.1 h
    cases heq
    have hread := ih hr
    simp only [List.length_cons] at hread ⊢
    omega
  | case6 c' text hslash hquote ih =>
    obtain ⟨⟨o, r⟩, hr, heq⟩ := Option.map_eq_some_iff.1 h
    cases heq
    have hread := ih hr
    simp only [List.length_cons]
    omega
  | case7 c c' text hslash hquote hnext =>
    cases h
    simp

/-- A backslash alone takes two characters and the closing quote. -/
theorem length_readEscaped_backslash (h : readEscaped text = some (['\\'], rest)) :
    rest.length + 3 ≤ text.length := by
  unfold readEscaped at h
  split at h
  · cases h
  · split_ifs at h
    cases h
  · split_ifs at h with hslash hquote hnext
    · obtain ⟨⟨o, r⟩, hr, heq⟩ := Option.map_eq_some_iff.1 h
      have hread := length_readEscaped hr
      obtain ⟨-, rfl⟩ := Prod.mk.inj heq
      simp only [List.length_cons]
      omega
    · obtain ⟨⟨o, r⟩, hr, heq⟩ := Option.map_eq_some_iff.1 h
      obtain ⟨hvalue, -⟩ := Prod.mk.inj heq
      exact absurd (List.cons.inj hvalue).1 hslash
    · obtain ⟨⟨o, r⟩, hr, heq⟩ := Option.map_eq_some_iff.1 h
      obtain ⟨hvalue, -⟩ := Prod.mk.inj heq
      exact absurd (List.cons.inj hvalue).1 (by decide)
    · cases h

end

/-- A text is read in one way. -/
theorem Lexes.functional {src : SqlSource} {text : List Char} {ls ls' : List Lexeme}
    (h : Lexes src text ls) (h' : Lexes src text ls') : ls = ls' := by
  have hquote : src.nameQuote ∈ quotes ∧ src.nameQuote ≠ '\'' := by cases src <;> decide
  induction h generalizing ls' with
  | nil =>
    cases h'
    rfl
  | plain hc h ih =>
    cases h' with
    | plain _ h' => rw [ih h']
    | identifier => exact absurd hquote.1 hc
    | string => exact absurd (by decide) hc
  | identifier hname h ih =>
    generalize htext : src.nameQuote :: _ = text at h'
    cases h' with
    | nil => cases htext
    | plain hc =>
      obtain ⟨rfl, -⟩ := List.cons.inj htext
      exact absurd hquote.1 hc
    | identifier hname' h' =>
      obtain ⟨-, rfl⟩ := List.cons.inj htext
      cases hname.symm.trans hname'
      rw [ih h']
    | string => exact absurd (List.cons.inj htext).1 hquote.2
  | string hvalue h ih =>
    generalize htext : '\'' :: _ = text at h'
    cases h' with
    | nil => cases htext
    | plain hc =>
      obtain ⟨rfl, -⟩ := List.cons.inj htext
      exact absurd (by decide) hc
    | identifier => exact absurd (List.cons.inj htext).1.symm hquote.2
    | string hvalue' h' =>
      obtain ⟨-, rfl⟩ := List.cons.inj htext
      cases hvalue.symm.trans hvalue'
      rw [ih h']

/-! ### JSON paths -/

theorem SqlSource.length_skipBlanks_le (src : SqlSource) (text : List Char) :
    (src.skipBlanks text).length ≤ text.length := by
  cases src with
  | mysql => exact (List.dropWhile_suffix _).length_le
  | _ => exact le_rfl

theorem SqlSource.skipBlanks_of_length (src : SqlSource) (text : List Char)
    (h : (src.skipBlanks text).length = text.length) : src.skipBlanks text = text := by
  cases src with
  | mysql => exact (List.dropWhile_suffix _).eq_of_length h
  | _ => rfl

/-- Blanks are skipped up to the first other character. -/
theorem SqlSource.skipBlanks_cons (src : SqlSource) {c : Char} (text : List Char)
    (h : c ∉ [' ', '\t', '\n', '\r']) : src.skipBlanks (c :: text) = c :: text := by
  cases src with
  | mysql =>
    rw [skipBlanks, List.dropWhile_cons_of_neg]
    simpa only [decide_eq_true_eq] using h
  | _ => rfl

namespace JsonPaths
variable {paths : JsonPaths} {src : SqlSource}

/-- Without quotes a key goes up to the next part of the path. -/
theorem takes_iff (hsrc : src ≠ .postgresql) {key : List Char} :
    paths.Takes src key ↔
      paths.Unquoted src key ∧ ∀ c ∈ key, src.endsKey c = false ∧ c ≠ '\'' := by
  cases src with
  | postgresql => exact absurd rfl hsrc
  | mysql =>
    refine ⟨fun h => ⟨h, fun c hc => ?_⟩, fun h => h.1⟩
    have hpart : paths.identifierPart c = true := List.all_eq_true.1 h.2 c hc
    have hsign := paths.identifierPart_sign c
    rw [hpart] at hsign
    simp only [List.mem_cons, List.not_mem_nil, or_false, Bool.true_eq_false, imp_false,
      not_or] at hsign
    simp [SqlSource.endsKey, hsign]
  | sqlite =>
    refine and_congr_right fun _ => forall₂_congr fun c _ => ?_
    simp [SqlSource.endsKey, and_assoc]

/-- A key that is taken starts with a character that is no blank. -/
theorem Takes.skipBlanks (hsrc : src ≠ .postgresql) {key : List Char} (h : paths.Takes src key)
    (rest : List Char) : src.skipBlanks (key ++ rest) = key ++ rest := by
  cases src with
  | postgresql => exact absurd rfl hsrc
  | mysql =>
    cases key with
    | nil => cases h.1
    | cons c key =>
      have hpart : paths.identifierPart c = true := List.all_eq_true.1 h.2 c List.mem_cons_self
      refine SqlSource.skipBlanks_cons _ _ fun hblank => ?_
      rw [paths.identifierPart_sign c (by
        simp only [List.mem_cons, List.not_mem_nil, or_false] at hblank ⊢
        tauto)] at hpart
      cases hpart
  | sqlite => rfl

/-- A path is read in one way. -/
theorem Legs.functional {text : List Char} {keys keys' : List (List Char)}
    (h : paths.Legs src text keys) (h' : paths.Legs src text keys') : keys = keys' := by
  have hquoted : ∀ inner,
      ¬paths.Unquoted src (('"' :: inner).takeWhile (!src.endsKey ·)) := by
    have hends : src.endsKey '"' = false := by cases src <;> rfl
    intro inner hkey
    rw [List.takeWhile_cons_of_pos (by rw [hends]; rfl)] at hkey
    cases src with
    | mysql =>
      have hpart := List.all_eq_true.1 hkey.2 '"' List.mem_cons_self
      rw [paths.identifierPart_sign _ (by decide)] at hpart
      cases hpart
    | _ => exact hkey.2 rfl
  induction h generalizing keys' with
  | done h =>
    cases h' with
    | done => rfl
    | unquoted hdot => exact absurd (h.symm.trans hdot) (by simp)
    | quoted hdot => exact absurd (h.symm.trans hdot) (by simp)
  | unquoted hdot hkey h ih =>
    cases h' with
    | done h' => exact absurd (h'.symm.trans hdot) (by simp)
    | unquoted hdot' hkey' h' =>
      obtain rfl := (List.cons.inj (hdot.symm.trans hdot')).2
      rw [ih h']
    | quoted hdot' hquote =>
      obtain rfl := (List.cons.inj (hdot.symm.trans hdot')).2
      exact absurd (hquote ▸ hkey) (hquoted _)
  | quoted hdot hquote hkey h ih =>
    cases h' with
    | done h' => exact absurd (h'.symm.trans hdot) (by simp)
    | unquoted hdot' hkey' =>
      obtain rfl := (List.cons.inj (hdot.symm.trans hdot')).2
      exact absurd (hquote ▸ hkey') (hquoted _)
    | quoted hdot' hquote' hkey' h' =>
      obtain rfl := (List.cons.inj (hdot.symm.trans hdot')).2
      obtain rfl := (List.cons.inj (hquote.symm.trans hquote')).2
      cases hkey.symm.trans hkey'
      rw [ih h']

/-- Keys that are taken are read back from the path. -/
theorem legs_of_takes (hsrc : src ≠ .postgresql) {keys : List String}
    (h : ∀ k ∈ keys, paths.Takes src k.toList) :
    paths.Legs src (Fragment.legs keys) (keys.map String.toList) := by
  induction keys with
  | nil => exact .done (by cases src <;> rfl)
  | cons k keys ih =>
    obtain ⟨hk, hrest⟩ := List.forall_mem_cons.1 h
    obtain ⟨hunquoted, hkey⟩ := (takes_iff hsrc).1 hk
    have hstop : ∀ c ∈ (Fragment.legs keys).head?, src.endsKey c = true := by
      cases keys with
      | nil => exact fun _ hc => absurd hc (by simp [Fragment.legs])
      | cons k' keys =>
        intro c hc
        obtain rfl : '.' = c := Option.some.inj hc
        cases src <;> rfl
    have hall : ∀ c ∈ k.toList, (!src.endsKey c) = true := fun c hc => by rw [(hkey c hc).1]; rfl
    have htake : (k.toList ++ Fragment.legs keys).takeWhile (!src.endsKey ·) = k.toList := by
      rw [List.takeWhile_append_of_pos hall]
      cases hlegs : Fragment.legs keys with
      | nil => simp
      | cons c more => simp [hstop c (by rw [hlegs]; rfl)]
    have hdrop : (k.toList ++ Fragment.legs keys).dropWhile (!src.endsKey ·) = Fragment.legs keys := by
      rw [List.dropWhile_append_of_pos hall]
      cases hlegs : Fragment.legs keys with
      | nil => rfl
      | cons c more => simp [hstop c (by rw [hlegs]; rfl)]
    have hskip := hk.skipBlanks hsrc (Fragment.legs keys)
    have hdot : src.skipBlanks (Fragment.legs (k :: keys)) =
        '.' :: (k.toList ++ Fragment.legs keys) := src.skipBlanks_cons _ (by decide)
    have hleg := Legs.unquoted hdot (by rwa [hskip, htake]) (by rw [hskip, hdrop]; exact ih hrest)
    rwa [hskip, htake] at hleg

/-- The keys of a path are not longer than its text, and as long only without quotes and blanks. -/
theorem Legs.length_le {text : List Char} {keys : List String}
    (h : paths.Legs src text (keys.map String.toList)) :
    (Fragment.legs keys).length ≤ text.length ∧
      ((Fragment.legs keys).length = text.length → text = Fragment.legs keys ∧
        ∀ k ∈ keys, paths.Unquoted src k.toList ∧ ∀ c ∈ k.toList, src.endsKey c = false) := by
  generalize hkeys : keys.map String.toList = ks at h
  induction h generalizing keys with
  | @done text h =>
    obtain rfl := List.map_eq_nil_iff.1 hkeys
    refine ⟨Nat.zero_le _, fun hlength => ⟨?_, fun _ hk => absurd hk List.not_mem_nil⟩⟩
    exact List.length_eq_zero_iff.1 hlength.symm
  | @unquoted text body ks hdot hkey h ih =>
    obtain ⟨k, keys, rfl, hk, hrest⟩ := List.map_eq_cons_iff.1 hkeys
    obtain ⟨hle, heq⟩ := ih hrest
    have htext := src.length_skipBlanks_le text
    have hbody := src.length_skipBlanks_le body
    have hsplit := List.takeWhile_append_dropWhile (p := (!src.endsKey ·)) (l := src.skipBlanks body)
    have hlength := congrArg List.length hsplit
    rw [List.length_append, ← hk] at hlength
    rw [hdot, List.length_cons] at htext
    have hcons : (Fragment.legs (k :: keys)).length =
        k.toList.length + (Fragment.legs keys).length + 1 := by
      simp [Fragment.legs]
    refine ⟨by omega, fun hall => ?_⟩
    obtain ⟨hlegs, hunquoted⟩ := heq (by omega)
    have hskipBody := src.skipBlanks_of_length body (by omega)
    have hskipText := src.skipBlanks_of_length text (by
      rw [hdot, List.length_cons]
      omega)
    constructor
    · rw [← hskipText, hdot, ← hskipBody, ← hsplit, ← hk, hlegs]
      rfl
    · refine List.forall_mem_cons.2 ⟨⟨hk ▸ hkey, fun c hc => ?_⟩, hunquoted⟩
      rw [hk] at hc
      simpa using List.mem_takeWhile_imp hc
  | @quoted text body inner key rest ks hdot hquote hkey h ih =>
    obtain ⟨k, keys, rfl, rfl, hrest⟩ := List.map_eq_cons_iff.1 hkeys
    obtain ⟨hle, -⟩ := ih hrest
    have htext := src.length_skipBlanks_le text
    have hbody := src.length_skipBlanks_le body
    have hinner := paths.quotedKey_length hkey
    rw [hdot, List.length_cons] at htext
    rw [hquote, List.length_cons] at hbody
    have hcons : (Fragment.legs (k :: keys)).length =
        k.toList.length + (Fragment.legs keys).length + 1 := by
      simp [Fragment.legs]
    exact ⟨by omega, by omega⟩

/-- The same for a whole path. -/
theorem ReadsPath.length_le {value : List Char} {keys : List String}
    (h : paths.ReadsPath src value (keys.map String.toList)) :
    (Fragment.legs keys).length + 1 ≤ value.length ∧
      ((Fragment.legs keys).length + 1 = value.length → value = '$' :: Fragment.legs keys ∧
        ∀ k ∈ keys, paths.Unquoted src k.toList ∧ ∀ c ∈ k.toList, src.endsKey c = false) := by
  obtain ⟨text, hvalue, hlegs⟩ := h
  obtain ⟨hle, heq⟩ := hlegs.length_le
  have hskip := src.length_skipBlanks_le value
  rw [hvalue, List.length_cons] at hskip
  refine ⟨by omega, fun hlength => ?_⟩
  obtain ⟨htext, hkeys⟩ := heq (by omega)
  have hsame := src.skipBlanks_of_length value (by
    rw [hvalue, List.length_cons]
    omega)
  exact ⟨by rw [← hsame, hvalue, htext], hkeys⟩

end JsonPaths

/-! ### Fragments -/

/-- Only PostgreSQL's `quote_ident` leaves the quotes in a name as they are. -/
theorem SqlSource.toList_quoteIdent (src : SqlSource) (name : String) :
    (src.dialect.quoteIdent name).toList = src.nameQuote ::
      ((if src = .postgresql then name.toList
        else replaceChar src.nameQuote [src.nameQuote, src.nameQuote] name.toList) ++
        [src.nameQuote]) := by
  cases src with
  | postgresql =>
    simp [dialect, lowerer, PostgreSQL.lowerer, PostgreSQL.dialect, PostgreSQL.quoteIdent, toString,
      nameQuote]
  | mysql =>
    simp [dialect, lowerer, MySQL.lowerer, MySQL.dialect, MySQL.quoteIdent, toString, nameQuote]
  | sqlite =>
    simp [dialect, lowerer, SQLite.lowerer, SQLite.dialect, SQLite.quoteIdent, toString, nameQuote]

/-- Doubling the quotes of a name makes it longer, if there are any. -/
theorem length_doubled (quote : Char) (name : List Char) :
    name.length ≤ (replaceChar quote [quote, quote] name).length ∧
      (name.length = (replaceChar quote [quote, quote] name).length → quote ∉ name) := by
  induction name with
  | nil => exact ⟨le_rfl, fun _ => List.not_mem_nil⟩
  | cons c name ih =>
    rw [replaceChar, List.flatMap_cons, ← replaceChar, List.length_append, List.length_cons]
    split_ifs with hc
    · exact ⟨by simp only [List.length_cons, List.length_nil]; omega,
        fun h => absurd h (by simp only [List.length_cons, List.length_nil]; omega)⟩
    · refine ⟨by simp only [List.length_cons, List.length_nil]; omega, fun h => ?_⟩
      have hname := ih.2 (by simp only [List.length_cons, List.length_nil] at h; omega)
      exact List.not_mem_cons_of_ne_of_not_mem (Ne.symm hc) hname

namespace Fragment
variable {paths : JsonPaths} {src : SqlSource}

/-- A faithful fragment is read in front of any text that does not go on with a quote. -/
theorem lexes_append {f : Fragment} (hfits : f.Fits src) (hfaithful : f.Faithful paths src)
    {rest : List Char} (hrest : f.isPlain = true ∨ ∀ c ∈ rest.head?, c ∉ quotes) {ls : List Lexeme}
    (h : Lexes src rest ls) : ∃ l, f.Meets paths src l ∧ Lexes src (f.text src ++ rest) (l :: ls) := by
  have hhead : f.isPlain = false → ∀ q ∈ quotes, rest.head? ≠ some q := by
    intro hf q hq heq
    rcases hrest with hplain | hrest
    · rw [hplain] at hf
      cases hf
    · exact hrest q heq hq
  have hname : src.nameQuote ∈ quotes := by cases src <;> decide
  cases f with
  | plain c => exact ⟨_, rfl, .plain hfits h⟩
  | identifier name =>
    refine ⟨_, rfl, ?_⟩
    have hbody : (if src = .postgresql then name.toList
        else replaceChar src.nameQuote [src.nameQuote, src.nameQuote] name.toList) =
        replaceChar src.nameQuote [src.nameQuote, src.nameQuote] name.toList := by
      split_ifs with hsrc
      · subst hsrc
        exact (replaceChar_of_notMem (hfaithful rfl)).symm
      · rfl
    rw [text, SqlSource.toList_quoteIdent, hbody, List.cons_append, List.append_assoc]
    exact .identifier (readQuoted_doubled_append _ (hhead rfl _ hname)) h
  | string value =>
    refine ⟨_, rfl, ?_⟩
    rw [text, List.cons_append, List.append_assoc]
    refine .string ?_ h
    have hread := readQuoted_append hfaithful (hhead rfl '\'' (by decide))
    cases src with
    | mysql => exact absurd rfl hfits
    | _ => exact hread
  | path keys =>
    have htakes : ∀ k ∈ keys, paths.Takes src k.toList := hfaithful
    have hpath : paths.ReadsPath src ('$' :: legs keys) (keys.map String.toList) :=
      ⟨legs keys, src.skipBlanks_cons _ (by decide), JsonPaths.legs_of_takes hfits htakes⟩
    refine ⟨_, ⟨_, rfl, hpath⟩, ?_⟩
    have hkey : ∀ k ∈ keys, ∀ c ∈ k.toList, src.endsKey c = false ∧ c ≠ '\'' := fun k hk =>
      ((JsonPaths.takes_iff hfits).1 (htakes k hk)).2
    have hquote : '\'' ∉ '$' :: legs keys := by
      simp only [legs, List.mem_cons, List.mem_flatMap, not_or, not_exists, not_and]
      exact ⟨by decide, fun k hk => ⟨by decide, fun hc => (hkey k hk _ hc).2 rfl⟩⟩
    have htext : (path keys).text src ++ rest = '\'' :: (('$' :: legs keys) ++ '\'' :: rest) := by
      simp [text]
    rw [htext]
    refine .string ?_ h
    have hnext := hhead rfl '\'' (by decide)
    cases src with
    | postgresql => exact absurd rfl hfits
    | sqlite => exact readQuoted_append hquote hnext
    | mysql =>
      refine readEscaped_append (fun c hc => ⟨fun heq => hquote (heq ▸ hc), ?_⟩) hnext
      rintro rfl
      simp only [legs, List.mem_cons, List.mem_flatMap] at hc
      obtain hc | ⟨k, hk, hc | hc⟩ := hc
      · exact absurd hc (by decide)
      · exact absurd hc (by decide)
      · have hpart := List.all_eq_true.1 (htakes k hk).2 _ hc
        rw [paths.identifierPart_sign _ (by decide)] at hpart
        cases hpart
  | escape =>
    refine ⟨_, rfl, ?_⟩
    have hnext := hhead rfl '\'' (by decide)
    cases src with
    | mysql => exact .string (readEscaped_escape hnext) h
    | _ =>
      have hread : readQuoted '\'' (['\\'] ++ '\'' :: rest) = some (['\\'], rest) :=
        readQuoted_append (by decide) hnext
      exact .string hread h

/-- Fragments that are faithful and apart are read back from their text. -/
theorem reads_of_faithful {fs : List Fragment} (hapart : fs.IsChain Apart)
    (hfits : ∀ f ∈ fs, f.Fits src) (hfaithful : ∀ f ∈ fs, f.Faithful paths src) :
    ReadsAs paths src fs (fs.flatMap (text src)) := by
  induction fs with
  | nil => exact ⟨[], .nil, .nil⟩
  | cons f fs ih =>
    obtain ⟨hf, hfs⟩ := List.forall_mem_cons.1 hfits
    obtain ⟨hf', hfs'⟩ := List.forall_mem_cons.1 hfaithful
    obtain ⟨ls, hlexes, hmeets⟩ := ih hapart.tail hfs hfs'
    have hhead : f.isPlain = true ∨ ∀ c ∈ (fs.flatMap (text src)).head?, c ∉ quotes := by
      cases fs with
      | nil => exact .inr fun _ hc => absurd hc (by simp)
      | cons g fs =>
        refine (List.isChain_cons_cons.1 hapart).1.imp_right fun hplain c hc => ?_
        cases g with
        | plain d =>
          obtain rfl : d = c := Option.some.inj hc
          exact (List.forall_mem_cons.1 hfs).1
        | _ => cases hplain
    obtain ⟨l, hl, htext⟩ := lexes_append hf hf' hhead hlexes
    exact ⟨l :: ls, htext, .cons hl hmeets⟩

theorem length_escape (src : SqlSource) :
    (escape.text src).length = if src = .mysql then 4 else 3 := by
  cases src <;> decide

/-- A quoted name takes at least the text that is written for it. -/
theorem length_identifier {name : String} {body rest : List Char}
    (h : readQuoted src.nameQuote body = some (name.toList, rest)) :
    ((identifier name).text src).length + rest.length ≤ body.length + 1 ∧
      (((identifier name).text src).length + rest.length = body.length + 1 → src.Quotable name) := by
  have hbody := congrArg List.length (readQuoted_eq_doubled h)
  obtain ⟨hle, heq⟩ := length_doubled src.nameQuote name.toList
  rw [text, SqlSource.toList_quoteIdent]
  simp only [List.length_append, List.length_cons, List.length_nil] at hbody ⊢
  split_ifs with hsrc
  · subst hsrc
    exact ⟨by omega, fun hall _ => heq (by omega)⟩
  · exact ⟨by omega, fun _ hpg => absurd hpg hsrc⟩

/-- So does a string literal. -/
theorem length_string {f : Fragment} {value body rest : List Char} (hfits : f.Fits src)
    (hmeets : f.Meets paths src (.string value)) (h : src.readString body = some (value, rest)) :
    (f.text src).length + rest.length ≤ body.length + 1 ∧
      ((f.text src).length + rest.length = body.length + 1 → f.Faithful paths src) := by
  cases f with
  | plain c => cases hmeets
  | identifier name => cases hmeets
  | string s =>
    obtain rfl := Lexeme.string.inj hmeets
    have hquoted : readQuoted '\'' body = some (s.toList, rest) := by
      cases src with
      | mysql => exact absurd rfl hfits
      | _ => exact h
    have hlength : ((string s).text src).length = s.toList.length + 2 := by simp [text]
    rw [hlength]
    rcases readQuoted_eq_some hquoted with ⟨hnot, htext⟩ | hlt
    · have hbody := congrArg List.length htext
      simp only [List.length_append, List.length_cons] at hbody
      exact ⟨by omega, fun _ => hnot⟩
    · exact ⟨by omega, by omega⟩
  | path keys =>
    obtain ⟨value', hvalue, hpath⟩ := hmeets
    obtain rfl := Lexeme.string.inj hvalue
    obtain ⟨hle, heq⟩ := hpath.length_le
    have hlength : ((path keys).text src).length = (legs keys).length + 3 := by simp [text]
    rw [hlength]
    cases src with
    | postgresql => exact absurd rfl hfits
    | mysql =>
      have hread := length_readEscaped h
      refine ⟨by omega, fun hall k hk => ?_⟩
      exact ((heq (by omega)).2 k hk).1
    | sqlite =>
      rcases readQuoted_eq_some h with ⟨hnot, htext⟩ | hlt
      · have hbody := congrArg List.length htext
        simp only [List.length_append, List.length_cons] at hbody
        refine ⟨by omega, fun hall k hk => ?_⟩
        obtain ⟨hvalue, hkeys⟩ := heq (by omega)
        refine (JsonPaths.takes_iff hfits).2 ⟨(hkeys k hk).1, fun c hc => ⟨(hkeys k hk).2 c hc, ?_⟩⟩
        rintro rfl
        refine hnot (hvalue ▸ List.mem_cons_of_mem _ (List.mem_flatMap.2 ⟨k, hk, ?_⟩))
        exact List.mem_cons_of_mem _ hc
      · exact ⟨by omega, by omega⟩
  | escape =>
    obtain rfl := Lexeme.string.inj hmeets
    refine ⟨?_, fun _ => trivial⟩
    have htext := length_escape src
    cases src with
    | mysql =>
      have hread := length_readEscaped_backslash h
      rw [if_pos rfl] at htext
      omega
    | postgresql | sqlite =>
      have hread := congrArg List.length (readQuoted_eq_doubled h)
      rw [List.length_append, List.length_cons] at hread
      have hvalue := (length_doubled '\'' ['\\']).1
      rw [List.length_singleton] at hvalue
      rw [if_neg (by decide)] at htext
      omega

/-- What is read as fragments has at least the length of their text, and has this length only if
they are faithful. -/
theorem length_of_lexes {body : List Char} {ls : List Lexeme} (h : Lexes src body ls)
    {fs : List Fragment} (hmeets : List.Forall₂ (Meets paths src) fs ls)
    (hfits : ∀ f ∈ fs, f.Fits src) :
    (fs.flatMap (text src)).length ≤ body.length ∧
      ((fs.flatMap (text src)).length = body.length → ∀ f ∈ fs, f.Faithful paths src) := by
  induction h generalizing fs with
  | nil =>
    cases hmeets
    exact ⟨le_rfl, fun _ _ hf => absurd hf List.not_mem_nil⟩
  | @plain c rest ls hc h ih =>
    obtain ⟨f, fs, hf, hfs, rfl⟩ := List.forall₂_cons_right_iff.1 hmeets
    obtain ⟨-, hrest⟩ := List.forall_mem_cons.1 hfits
    obtain ⟨hle, heq⟩ := ih hfs hrest
    have hplain : f = .plain c := by
      cases f with
      | plain d => rw [Lexeme.plain.inj hf]
      | path keys => obtain ⟨_, hl, -⟩ := hf; cases hl
      | _ => cases hf
    subst hplain
    rw [List.flatMap_cons, List.length_append]
    simp only [text, List.length_cons, List.length_nil]
    refine ⟨by omega, fun hall => List.forall_mem_cons.2 ⟨trivial, heq (by omega)⟩⟩
  | @identifier body name rest ls hname h ih =>
    obtain ⟨f, fs, hf, hfs, rfl⟩ := List.forall₂_cons_right_iff.1 hmeets
    obtain ⟨-, hrest⟩ := List.forall_mem_cons.1 hfits
    obtain ⟨hle, heq⟩ := ih hfs hrest
    obtain ⟨n, rfl, rfl⟩ : ∃ n : String, f = .identifier n ∧ name = n.toList := by
      cases f with
      | identifier n => exact ⟨n, rfl, Lexeme.identifier.inj hf⟩
      | path keys => obtain ⟨_, hl, -⟩ := hf; cases hl
      | _ => cases hf
    obtain ⟨hstep, hquotable⟩ := length_identifier hname
    rw [List.flatMap_cons, List.length_append, List.length_cons]
    refine ⟨by omega, fun hall => List.forall_mem_cons.2 ⟨hquotable (by omega), heq (by omega)⟩⟩
  | @string body value rest ls hvalue h ih =>
    obtain ⟨f, fs, hf, hfs, rfl⟩ := List.forall₂_cons_right_iff.1 hmeets
    obtain ⟨hfit, hrest⟩ := List.forall_mem_cons.1 hfits
    obtain ⟨hle, heq⟩ := ih hfs hrest
    obtain ⟨hstep, hfaithful⟩ := length_string hfit hf hvalue
    rw [List.flatMap_cons, List.length_append, List.length_cons]
    refine ⟨by omega, fun hall => List.forall_mem_cons.2 ⟨hfaithful (by omega), heq (by omega)⟩⟩

/-- The fragments that references are made of. -/
def Refers (src : SqlSource) : Fragment → Prop
  | plain _ | identifier _ => True
  | string _ => src = .postgresql
  | path _ => src ≠ .postgresql
  | escape => False

/-- A lexeme is at most one such fragment. -/
theorem Meets.injective {f g : Fragment} {l : Lexeme} (hf : f.Refers src) (hg : g.Refers src)
    (h : f.Meets paths src l) (h' : g.Meets paths src l) : f = g := by
  have hstrings : ∀ {k k' : List String}, k.map String.toList = k'.map String.toList → k = k' :=
    fun h => List.map_injective_iff.2 (fun _ _ => String.toList_inj.1) h
  cases f with
  | plain c =>
    obtain rfl := h
    cases g with
    | plain d => rw [Lexeme.plain.inj h']
    | path => obtain ⟨_, h', -⟩ := h'; cases h'
    | _ => cases h'
  | identifier name =>
    obtain rfl := h
    cases g with
    | identifier n => rw [String.toList_inj.1 (Lexeme.identifier.inj h')]
    | path => obtain ⟨_, h', -⟩ := h'; cases h'
    | _ => cases h'
  | string value =>
    obtain rfl := h
    cases g with
    | string v => rw [String.toList_inj.1 (Lexeme.string.inj h')]
    | path => exact absurd hf hg
    | escape => cases hg
    | _ => cases h'
  | path keys =>
    obtain ⟨value, rfl, text, hvalue, hlegs⟩ := h
    cases g with
    | path keys' =>
      obtain ⟨value', hl, text', hvalue', hlegs'⟩ := h'
      obtain rfl := Lexeme.string.inj hl
      obtain rfl := (List.cons.inj (hvalue.symm.trans hvalue')).2
      rw [hstrings (hlegs.functional hlegs')]
    | string => exact absurd hg hf
    | escape => cases hg
    | _ => cases h'
  | escape => cases hf

/-- A text is read as at most one row of such fragments. -/
theorem readsAs_injective {fs gs : List Fragment} {body : List Char} (hfs : ∀ f ∈ fs, f.Refers src)
    (hgs : ∀ g ∈ gs, g.Refers src) (h : ReadsAs paths src fs body) (h' : ReadsAs paths src gs body) :
    fs = gs := by
  obtain ⟨ls, hlexes, hmeets⟩ := h
  obtain ⟨ls', hlexes', hmeets'⟩ := h'
  obtain rfl := hlexes.functional hlexes'
  clear hlexes hlexes'
  induction hmeets generalizing gs with
  | nil => exact (List.forall₂_nil_right_iff.1 hmeets').symm
  | cons hf hmeets ih =>
    obtain ⟨g, gs, hg, hrest, rfl⟩ := List.forall₂_cons_right_iff.1 hmeets'
    obtain ⟨hfirst, hfs⟩ := List.forall_mem_cons.1 hfs
    obtain ⟨hfirst', hgs⟩ := List.forall_mem_cons.1 hgs
    rw [hf.injective hfirst hfirst' hg, ih hfs hgs hrest]

/-- Fragments are read back from their text if and only if each of them is faithful. -/
theorem readsAs_text_iff {fs : List Fragment} (hapart : fs.IsChain Apart)
    (hfits : ∀ f ∈ fs, f.Fits src) :
    ReadsAs paths src fs (fs.flatMap (text src)) ↔ ∀ f ∈ fs, f.Faithful paths src := by
  constructor
  · rintro ⟨ls, hlexes, hmeets⟩
    exact (length_of_lexes hlexes hmeets hfits).2 rfl
  · exact reads_of_faithful hapart hfits

end Fragment

end AltrStream.Lowering
