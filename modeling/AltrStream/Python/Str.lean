import AltrStream.Foundations.Lines

/-! # The text methods of `str`

`isspace`, `strip`, `rstrip`, `split`, `join`, `in` and `lower`. Lower-casing
depends on the edition of Unicode; what every edition satisfies is part of
`Casing`, so that a development works for all of them.
-/
namespace AltrStream.Python
open Foundations

/-- `c.isspace()` -/
def isspace (c : Char) : Bool :=
  let n := c.toNat
  (9 ≤ n && n ≤ 13) || (28 ≤ n && n ≤ 32) || n = 0x85 || n = 0xA0 || n = 0x1680 ||
    (0x2000 ≤ n && n ≤ 0x200A) || n = 0x2028 || n = 0x2029 || n = 0x202F || n = 0x205F || n = 0x3000

def stripChars (s : List Char) : List Char := (s.dropWhile isspace).rdropWhile isspace

/-- `s.strip()` -/
def strip (s : String) : String := String.ofList (stripChars s.toList)

/-- `s.rstrip(c)` for a single character. -/
def rstrip (c : Char) (s : String) : String := String.ofList (s.toList.rdropWhile (· = c))

/-- `s.split(c)` for a single character. -/
def split (c : Char) (s : String) : List String := (s.toList.splitOn c).map String.ofList

/-- `c.join(parts)` for a single character. -/
def join (c : Char) (parts : List String) : String :=
  String.ofList ([c].intercalate (parts.map String.toList))

/-- `needle in s` -/
def isIn (needle s : String) : Bool := needle.toList <:+: s.toList

/-- `str.lower`: it yields only characters that it keeps, keeps the texts of such characters, and
is what it always was on ASCII. -/
structure Casing where
  lower : String → String
  lower_of_ascii : ∀ s, (∀ c ∈ s.toList, c.toNat < 128) →
    lower s = String.ofList (s.toList.map Char.toLower)
  kept_of_lower : ∀ s, ∀ c ∈ (lower s).toList, lower (String.ofList [c]) = String.ofList [c]
  lower_of_kept : ∀ s, (∀ c ∈ s.toList, lower (String.ofList [c]) = String.ofList [c]) → lower s = s

private theorem toLower_toLower (c : Char) : c.toLower.toLower = c.toLower := by
  by_cases h : 'A'.val ≤ c.val ∧ c.val ≤ 'Z'.val
  · have hval : c.toLower.val = c.val + ('a'.val - 'A'.val) := by
      unfold Char.toLower
      rw [dif_pos h]
    have hnot : ¬ ('A'.val ≤ c.toLower.val ∧ c.toLower.val ≤ 'Z'.val) := by
      rw [hval]
      obtain ⟨hlow, hhigh⟩ := h
      simp only [UInt32.le_iff_toNat_le, UInt32.toNat_add, UInt32.toNat_sub] at *
      simp at *
      omega
    exact dif_neg hnot
  · have hself : c.toLower = c := dif_neg h
    rw [hself, hself]

/-- The tables of the ASCII letters. -/
def Casing.ascii : Casing where
  lower s := String.ofList (s.toList.map Char.toLower)
  lower_of_ascii _ _ := rfl
  kept_of_lower s c hc := by
    obtain ⟨d, -, rfl⟩ := List.mem_map.1 (by simpa using hc)
    simp [toLower_toLower]
  lower_of_kept s h := by
    have hchars : s.toList.map Char.toLower = s.toList := by
      refine (List.map_congr_left fun c hc => ?_).trans (List.map_id _)
      simpa using h c hc
    rw [hchars, String.ofList_toList]

namespace Casing

variable (py : Casing)

/-- A text of characters that are lower case already. -/
def Kept (s : String) : Prop :=
  ∀ c ∈ s.toList, py.lower (String.ofList [c]) = String.ofList [c]

@[simp] theorem lower_lower (s : String) : py.lower (py.lower s) = py.lower s :=
  py.lower_of_kept _ (py.kept_of_lower s)

theorem kept_of_ascii {c : Char} (hascii : c.toNat < 128) (hlower : c.toLower = c) :
    py.lower (String.ofList [c]) = String.ofList [c] := by
  rw [py.lower_of_ascii _ (by simpa using hascii)]
  simp [hlower]

/-- Lower-case ASCII texts are kept. -/
theorem kept_of_forall {s : String} (h : ∀ c ∈ s.toList, c.toNat < 128 ∧ c.toLower = c) : py.Kept s :=
  fun c hc => py.kept_of_ascii (h c hc).1 (h c hc).2

/-- `s.lower().rstrip("s")`: the form in which names are the same but for case and plural. -/
def clean (s : String) : String := rstrip 's' (py.lower s)

end Casing

/-! ### Splitting and searching -/

/-- The characters of a joined text are separators or come from its parts. -/
theorem mem_join {c sep : Char} {parts : List String} (h : c ∈ (join sep parts).toList) :
    c = sep ∨ ∃ p ∈ parts, c ∈ p.toList := by
  rw [join, String.toList_ofList] at h
  induction parts with
  | nil => simp at h
  | cons p parts ih =>
    cases parts with
    | nil => exact .inr ⟨p, List.mem_singleton_self p, by simpa using h⟩
    | cons q parts =>
      rw [List.map_cons, List.map_cons, List.intercalate_cons_cons, List.mem_append,
        List.mem_append] at h
      rcases h with (h | h) | h
      · exact .inr ⟨p, List.mem_cons_self, h⟩
      · exact .inl (List.mem_singleton.1 h)
      · exact (ih h).imp id fun ⟨r, hr, hc⟩ => ⟨r, List.mem_cons_of_mem _ hr, hc⟩

theorem mem_split {c sep : Char} {s p : String} (hp : p ∈ split sep s) (hc : c ∈ p.toList) :
    c ∈ s.toList := by
  obtain ⟨q, hq, rfl⟩ := List.mem_map.1 hp
  rw [String.toList_ofList] at hc
  exact mem_of_mem_splitOn hq hc

theorem mem_strip {c : Char} {s : String} (hc : c ∈ (strip s).toList) : c ∈ s.toList := by
  rw [strip, stripChars, String.toList_ofList] at hc
  exact (List.dropWhile_sublist _).mem ((List.rdropWhile_prefix _ _).mem hc)

private theorem infix_append_cons {α : Type*} {w xs ys : List α} {a : α} (ha : a ∉ w) :
    w <:+: xs ++ a :: ys ↔ w <:+: xs ∨ w <:+: ys := by
  constructor
  · rintro ⟨pre, post, h⟩
    rcases List.append_eq_append_iff.1 h with ⟨c, hxs, hpost⟩ | ⟨c, hpre, hys⟩
    · exact .inl ⟨pre, c, hxs.symm⟩
    · cases c with
      | nil => exact .inl ⟨pre, [], by simpa using hpre⟩
      | cons b c =>
        obtain ⟨rfl, rfl⟩ := List.cons.inj hys
        rcases List.append_eq_append_iff.1 hpre with ⟨d, -, hw⟩ | ⟨d, -, hw⟩
        · exact absurd (hw ▸ by simp) ha
        · cases d with
          | nil => exact absurd (by simpa using (List.nil_append _ ▸ hw) ▸ List.mem_cons_self) ha
          | cons e d =>
            obtain ⟨rfl, rfl⟩ := List.cons.inj hw
            exact .inr ⟨d, post, rfl⟩
  · rintro (h | h)
    · exact h.trans (List.prefix_append xs _).isInfix
    · exact h.trans ((List.suffix_cons a ys).trans (List.suffix_append xs _)).isInfix

/-- A text without the separator occurs in a text exactly if it occurs in a piece of it. -/
theorem infix_iff_splitOn {α : Type*} [DecidableEq α] {w : List α} {a : α} (ha : a ∉ w) (s : List α) :
    w <:+: s ↔ ∃ p ∈ s.splitOn a, w <:+: p := by
  induction hn : s.length using Nat.strong_induction_on generalizing s with
  | _ n ih =>
    by_cases hmem : a ∈ s
    · obtain ⟨xs, ys, rfl⟩ := List.append_of_mem hmem
      rw [List.length_append, List.length_cons] at hn
      rw [infix_append_cons ha, List.splitOn_append_cons_self, ih xs.length (by omega) xs rfl,
        ih ys.length (by omega) ys rfl]
      simp only [List.mem_append, or_and_right, exists_or]
    · rw [List.splitOn_eq_singleton hmem]
      simp

private theorem infix_dropWhile {α : Type*} {p : α → Bool} {w : List α} (hne : w ≠ [])
    (hw : ∀ a ∈ w, p a = false) (l : List α) : w <:+: l.dropWhile p ↔ w <:+: l := by
  induction l with
  | nil => rfl
  | cons b l ih =>
    cases hb : p b with
    | false => rw [List.dropWhile_cons_of_neg (by simp [hb])]
    | true =>
      have hinit : ¬ w <+: b :: l := by
        intro h
        obtain ⟨a, w', rfl⟩ := List.exists_cons_of_ne_nil hne
        obtain ⟨rfl, -⟩ := List.cons_prefix_cons.1 h
        simpa [hb] using hw a List.mem_cons_self
      rw [List.dropWhile_cons_of_pos hb, ih, List.infix_cons_iff, or_iff_right hinit]

/-- Stripping a text does not change which words without spaces occur in it. -/
theorem isIn_strip {needle : String} (hne : needle ≠ "") (h : ∀ c ∈ needle.toList, isspace c = false)
    (s : String) : isIn needle (strip s) = isIn needle s := by
  have hnil : needle.toList ≠ [] := by simpa using hne
  simp only [isIn, strip, stripChars, List.rdropWhile, String.toList_ofList]
  rw [decide_eq_decide, ← List.reverse_infix, List.reverse_reverse,
    infix_dropWhile (by simpa using hne) (by simpa using h), List.reverse_infix,
    infix_dropWhile hnil h]

theorem stripChars_eq_nil {s : List Char} : stripChars s = [] ↔ ∀ c ∈ s, isspace c := by
  rw [stripChars, List.rdropWhile_eq_nil_iff]
  constructor
  · intro h
    by_contra hc
    have hne : s.dropWhile isspace ≠ [] := mt List.dropWhile_eq_nil_iff.1 hc
    have hhead := h _ (List.head_mem hne)
    rw [List.head_dropWhile_not isspace hne] at hhead
    cases hhead
  · exact fun h c hc => h c ((List.dropWhile_sublist _).mem hc)

/-- What stripping takes away are spaces on both sides. -/
theorem stripChars_append (s : List Char) : ∃ before after, s = before ++ stripChars s ++ after ∧
    (∀ c ∈ before, isspace c) ∧ ∀ c ∈ after, isspace c := by
  refine ⟨s.takeWhile isspace, (s.dropWhile isspace).rtakeWhile isspace, ?_,
    fun c hc => List.mem_takeWhile_imp hc, fun c hc => List.mem_rtakeWhile_imp hc⟩
  rw [stripChars, List.append_assoc, List.rdropWhile_append_rtakeWhile,
    List.takeWhile_append_dropWhile]

theorem stripChars_stripChars (s : List Char) : stripChars (stripChars s) = stripChars s := by
  have hinner : (stripChars s).dropWhile isspace = stripChars s := by
    rw [List.dropWhile_eq_self_iff]
    intro hlen hspace
    have hpre : stripChars s <+: s.dropWhile isspace := List.rdropWhile_prefix _ _
    have hne : s.dropWhile isspace ≠ [] := by
      intro hnil
      rw [stripChars, hnil] at hlen
      simp at hlen
    have hhead : (stripChars s)[0] = (s.dropWhile isspace).head hne := by
      rw [List.head_eq_getElem, hpre.getElem]
    rw [hhead, List.head_dropWhile_not isspace hne] at hspace
    cases hspace
  nth_rewrite 1 [stripChars]
  rw [hinner, stripChars, List.rdropWhile_idempotent]

end AltrStream.Python
