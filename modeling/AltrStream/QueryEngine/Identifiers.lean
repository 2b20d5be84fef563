import AltrStream.Python.Str
import AltrStream.QueryEngine.Faithful

/-! # The characters of a name

An identifier is scanned as alphanumeric characters and underscores, so the name of
an accepted query's entity has no white space around it.
-/
namespace AltrStream.QueryEngine
open Foundations Python

section
variable (u : Unicode)

/-- The characters are alphanumeric or underscores. -/
def IsName (name : String) : Prop := ∀ c ∈ name.toList, u.isalnum c = true ∨ c = '_'

/-- A token of that type has a name of such characters. -/
def TokenType.Named (type : TokenType) : Prop := ∀ name, type = .identifier name → IsName u name

namespace Lexer

theorem scanIdentifierOrKeyword_named (cursor : Cursor) :
    (scanIdentifierOrKeyword u cursor).1.type.Named u := by
  unfold scanIdentifierOrKeyword
  dsimp only
  split
  · rename_i type hlookup
    rintro name rfl
    obtain ⟨before, after, hsplit, -⟩ := List.lookup_eq_some_iff.1 hlookup
    have hkeywords : ∀ entry ∈ reservedKeywords, ∀ name, entry.2 ≠ .identifier name := by
      simp [reservedKeywords]
    have hmem := hsplit ▸ List.mem_append_right before List.mem_cons_self
    exact absurd rfl (hkeywords _ hmem name)
  · rintro name hname c hc
    cases hname
    have hslice := slice_skip (fun c => u.isalnum c || c = '_') cursor
    rw [hslice, String.toList_ofList] at hc
    simpa using List.mem_takeWhile_imp hc

theorem scanNumber_named {cursor stop : Cursor} {t : Token} (h : scanNumber u cursor = .ok (t, stop)) :
    t.type.Named u := by
  have hconverted : ∀ {α : Type} {r : Except String α} {f : α → Token} {stop' : Cursor},
      (do
        let value ← converted r
        return (f value, stop')) = Except.ok (t, stop) → (∀ a, (f a).type.Named u) →
      t.type.Named u := by
    intro α r f stop' h hf
    cases r with
    | error e => cases h
    | ok a =>
      cases h
      exact hf a
  unfold scanNumber at h
  dsimp only at h
  split at h
  · exact hconverted h fun a _ hname => nomatch hname
  · split at h
    · cases h
    · exact hconverted h fun a _ hname => nomatch hname
  · exact hconverted h fun a _ hname => nomatch hname

theorem step_named {cursor stop : Cursor} {c : Char} {rest : List Char} {t : Token}
    (h : step u c rest cursor = .ok (some t, stop)) : t.type.Named u := by
  rintro name htype
  rcases step_cases u h with hdouble | hsingle | hscan | hscan | ⟨-, hscan⟩ | hscan
  · rw [htype] at hdouble
    unfold doubleToken? at hdouble
    split at hdouble <;> cases hdouble
  · rw [htype] at hsingle
    unfold singleToken? at hsingle
    split at hsingle <;> cases hsingle
  · obtain ⟨s, hs⟩ := scanString_type hscan
    cases htype.symm.trans hs
  · obtain ⟨d, hd⟩ := scanTemporalLiteral_type u hscan
    cases htype.symm.trans hd
  · exact scanNumber_named u hscan name htype
  · have hnamed := scanIdentifierOrKeyword_named u cursor
    rw [hscan] at hnamed
    exact hnamed name htype

theorem scan_named {fuel : ℕ} {cursor : Cursor} {tokens : List Token} (h : scan u fuel cursor = .ok tokens) :
    ∀ t ∈ tokens, t.type.Named u :=
  scan_forall u (by rintro _ ⟨⟩) (fun _ _ _ _ _ => step_named u) h

end Lexer

/-- The entity of a query is a token of its text. -/
theorem AltrQueryIR.ReadAs.entity_mem {ir : AltrQueryIR} {xs : List TokenType} (h : ir.ReadAs xs) :
    .identifier ir.entity ∈ xs := by
  obtain ⟨-, -, dropped, window, rfl, -⟩ := h
  have hhead : ∃ keyword ys, keyword.isContent = true ∧
      ir.printHead = keyword :: .identifier ir.entity :: ys := by
    unfold AltrQueryIR.printHead
    cases ir.operation <;> exact ⟨_, _, rfl, rfl⟩
  obtain ⟨keyword, ys, hkeyword, hhead⟩ := hhead
  rw [hhead, content_keyword_entity hkeyword]
  simp

theorem parseAltrql_entity {text : String} {ir : AltrQueryIR} (h : parseAltrql u text = .ok ir) :
    IsName u ir.entity := by
  obtain ⟨tokens, htokens, -⟩ := bind_eq_ok.1 h
  have hmem := (parseAltrql_reads u htokens h).1.entity_mem
  obtain ⟨t, ht, htype⟩ := List.mem_map.1 (List.mem_of_mem_filter hmem)
  exact Lexer.scan_named u htokens t ht _ htype

/-- White space is not alphanumeric. -/
def SpaceApart : Prop := ∀ c, u.isalnum c = true → isspace c = false

variable {u}

theorem strip_of_isName (hu : SpaceApart u) {name : String} (h : IsName u name) : strip name = name := by
  have hspace : ∀ c ∈ name.toList, isspace c = false := by
    intro c hc
    rcases h c hc with hc | rfl
    · exact hu c hc
    · decide
  have hdrop : ∀ cs : List Char, (∀ c ∈ cs, isspace c = false) → cs.dropWhile isspace = cs := by
    rintro (_ | ⟨c, cs⟩) hcs
    · rfl
    · rw [List.dropWhile_cons_of_neg (by simp [hcs c List.mem_cons_self])]
  rw [strip, stripChars, hdrop _ hspace, List.rdropWhile, hdrop _ (by simpa using hspace),
    List.reverse_reverse, String.ofList_toList]

end

end AltrStream.QueryEngine
