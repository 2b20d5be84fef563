import Mathlib.Data.List.DropRight
import Mathlib.Data.List.Infix
import Mathlib.Data.String.Basic

/-! # Texts cut into pieces

Splitting at a separator and joining with it, and prefixes that are cut off.
-/
namespace AltrStream.Foundations
variable {α : Type*} [DecidableEq α]

/-- A condition on the characters of a text is decided on them alone, not on all that there are. -/
instance (priority := high) decidableForallChar (s : List Char) (p : Char → Prop) [DecidablePred p] :
    Decidable (∀ c ∈ s, p c) := List.decidableBAll p s

instance (priority := high) decidableForallChar? (s : Option Char) (p : Char → Prop)
    [DecidablePred p] : Decidable (∀ c ∈ s, p c) := Option.decidableForallMem s

theorem mem_of_mem_splitOn {sep c : α} {s p : List α} (hp : p ∈ s.splitOn sep) (hc : c ∈ p) : c ∈ s := by
  induction s generalizing p with
  | nil =>
    rw [List.splitOn_nil, List.mem_singleton] at hp
    exact hp ▸ hc
  | cons x s ih =>
    rw [List.splitOn_cons_eq_if_modifyHead] at hp
    split_ifs at hp with hx
    · rcases List.mem_cons.1 hp with rfl | hp
      · cases hc
      · exact List.mem_cons_of_mem _ (ih hp hc)
    · cases hs : s.splitOn sep with
      | nil => exact absurd hs (List.splitOn_ne_nil _ _)
      | cons q rest =>
        rw [hs] at hp ih
        rcases List.mem_cons.1 hp with rfl | hp
        · exact (List.mem_cons.1 hc).elim (fun h => h ▸ List.mem_cons_self) fun h =>
            List.mem_cons_of_mem _ (ih List.mem_cons_self h)
        · exact List.mem_cons_of_mem _ (ih (List.mem_cons_of_mem _ hp) hc)

/-- No piece contains the separator. -/
theorem not_mem_of_mem_splitOn {sep : α} {s p : List α} (h : p ∈ s.splitOn sep) : sep ∉ p := by
  induction s generalizing p with
  | nil =>
    rw [List.splitOn_nil, List.mem_singleton] at h
    simp [h]
  | cons x s ih =>
    rw [List.splitOn_cons_eq_if_modifyHead] at h
    split_ifs at h with hx
    · rcases List.mem_cons.1 h with rfl | h
      · exact List.not_mem_nil
      · exact ih h
    · cases hs : s.splitOn sep with
      | nil => exact absurd hs (List.splitOn_ne_nil _ _)
      | cons first rest =>
        rw [hs] at h ih
        rcases List.mem_cons.1 h with rfl | h
        · have hne : sep ≠ x := fun heq => hx (by simp [heq])
          exact List.not_mem_cons_of_ne_of_not_mem hne (ih List.mem_cons_self)
        · exact ih (List.mem_cons_of_mem _ h)

/-- The pieces of a prefix are pieces of the text or start them. -/
theorem exists_prefix_splitOn (sep : α) {p s : List α} (h : p <+: s) :
    ∃ head tail head' tail', p.splitOn sep = head :: tail ∧ s.splitOn sep = head' :: tail' ∧
      head <+: head' ∧ ∀ piece ∈ tail, ∃ piece' ∈ tail', piece <+: piece' := by
  induction p generalizing s with
  | nil =>
    obtain ⟨head', tail', hs⟩ := List.exists_cons_of_ne_nil (List.splitOn_ne_nil sep s)
    exact ⟨[], [], head', tail', rfl, hs, List.nil_prefix, by simp⟩
  | cons x p ih =>
    obtain ⟨s, rfl⟩ := h
    obtain ⟨head, tail, head', tail', hp, hs, hhead, htail⟩ := ih (List.prefix_append p s)
    rw [List.cons_append, List.splitOn_cons_eq_if_modifyHead, List.splitOn_cons_eq_if_modifyHead, hp,
      hs]
    split_ifs
    · refine ⟨[], head :: tail, [], head' :: tail', rfl, rfl, List.prefix_rfl, ?_⟩
      refine List.forall_mem_cons.2 ⟨⟨head', List.mem_cons_self, hhead⟩, fun piece hpiece => ?_⟩
      obtain ⟨piece', hpiece', hprefix⟩ := htail piece hpiece
      exact ⟨piece', List.mem_cons_of_mem _ hpiece', hprefix⟩
    · exact ⟨x :: head, tail, x :: head', tail', rfl, rfl, List.prefix_cons_inj x |>.2 hhead, htail⟩

omit [DecidableEq α] in
/-- A joined text has no other characters than its pieces and the separator. -/
theorem not_mem_intercalate {a sep : α} {pieces : List (List α)} (hne : a ≠ sep)
    (h : ∀ p ∈ pieces, a ∉ p) : a ∉ [sep].intercalate pieces := by
  induction pieces with
  | nil => exact List.not_mem_nil
  | cons p pieces ih =>
    obtain ⟨hp, hpieces⟩ := List.forall_mem_cons.1 h
    cases pieces with
    | nil => simpa using hp
    | cons q pieces =>
      rw [List.intercalate_cons_cons, List.mem_append, List.mem_append, List.mem_singleton]
      exact not_or.2 ⟨not_or.2 ⟨hp, hne⟩, ih hpieces⟩

theorem dropPrefix?_eq_some {p s rest : List α} : s.dropPrefix? p = some rest ↔ s = p ++ rest := by
  rw [List.dropPrefix?_eq_some_iff]
  constructor
  · rintro ⟨p', rfl, hp⟩
    rw [eq_of_beq hp]
  · rintro rfl
    exact ⟨p, rfl, beq_self_eq_true p⟩

@[simp] theorem dropPrefix?_append (p s : List α) : (p ++ s).dropPrefix? p = some s :=
  dropPrefix?_eq_some.2 rfl

end AltrStream.Foundations

/-! ## Escaped `LIKE` patterns

`%` stands for any text, `_` for one character, and a backslash makes the next
character literal. A pattern built by escaping a text and adding `%` around it
tests for a prefix, a suffix or an infix.
-/
namespace AltrStream.Foundations

/-- Match a text against the rest of a pattern, `escaped` after a backslash. -/
def likeFrom : List Char → Bool → List Char → Bool
  | [], escaped, s => !escaped && s.isEmpty
  | c :: p, escaped, s =>
    if escaped = false ∧ c = '\\' then likeFrom p true s
    else if escaped = false ∧ c = '%' then s.tails.any (likeFrom p false)
    else match s with
      | [] => false
      | d :: s => ((escaped = false ∧ c = '_') || c == d) && likeFrom p false s

def likeMatch (p s : List Char) : Bool := likeFrom p false s

/-- Put a backslash before every character that a pattern would read specially. -/
def likeEscape (s : List Char) : List Char :=
  s.flatMap fun c => if c = '\\' ∨ c = '%' ∨ c = '_' then ['\\', c] else [c]

private theorem likeFrom_literal (c : Char) (p s : List Char) :
    likeFrom (c :: p) true s = true ↔ ∃ s', s = c :: s' ∧ likeFrom p false s' = true := by
  cases s with
  | nil => simp [likeFrom]
  | cons d s =>
    simp only [likeFrom]
    constructor
    · intro h
      simp only [Bool.true_eq_false, false_and, if_false, decide_false, Bool.false_or,
        Bool.and_eq_true, beq_iff_eq] at h
      exact ⟨s, by rw [h.1], h.2⟩
    · rintro ⟨s', hs, h⟩
      obtain ⟨rfl, rfl⟩ := List.cons.inj hs
      simp [h]

/-- An escaped character matches itself and nothing else. -/
theorem likeMatch_escaped_char (c : Char) (p s : List Char) :
    likeMatch (likeEscape [c] ++ p) s = true ↔ ∃ s', s = c :: s' ∧ likeMatch p s' = true := by
  by_cases hc : c = '\\' ∨ c = '%' ∨ c = '_'
  · have hpat : likeEscape [c] ++ p = '\\' :: c :: p := by simp [likeEscape, hc]
    rw [hpat, show (∃ s', s = c :: s' ∧ likeMatch p s' = true) ↔ _ from
      (likeFrom_literal c p s).symm]
    simp [likeMatch, likeFrom]
  · have hpat : likeEscape [c] ++ p = c :: p := by simp [likeEscape, hc]
    rw [hpat, show (∃ s', s = c :: s' ∧ likeMatch p s' = true) ↔ _ from
      (likeFrom_literal c p s).symm]
    push Not at hc
    cases s with
    | nil => simp [likeMatch, likeFrom, hc]
    | cons d s => simp [likeMatch, likeFrom, hc]

theorem likeMatch_escape_append (t p s : List Char) :
    likeMatch (likeEscape t ++ p) s = true ↔ ∃ s', s = t ++ s' ∧ likeMatch p s' = true := by
  induction t generalizing s with
  | nil => simp [likeEscape]
  | cons c t ih =>
    have hsplit : likeEscape (c :: t) ++ p = likeEscape [c] ++ (likeEscape t ++ p) := by
      simp [likeEscape]
    rw [hsplit, likeMatch_escaped_char]
    constructor
    · rintro ⟨s', rfl, h⟩
      obtain ⟨r, rfl, hr⟩ := (ih s').mp h
      exact ⟨r, rfl, hr⟩
    · rintro ⟨r, rfl, hr⟩
      exact ⟨t ++ r, rfl, (ih _).mpr ⟨r, rfl, hr⟩⟩

theorem likeMatch_percent (p s : List Char) :
    likeMatch ('%' :: p) s = true ↔ ∃ s', s' <:+ s ∧ likeMatch p s' = true := by
  simp [likeMatch, likeFrom, List.any_eq_true]

theorem likeMatch_startsWith (t s : List Char) :
    likeMatch (likeEscape t ++ ['%']) s = true ↔ t <+: s := by
  rw [likeMatch_escape_append]
  constructor
  · rintro ⟨r, rfl, -⟩
    exact List.prefix_append _ _
  · rintro ⟨r, rfl⟩
    exact ⟨r, rfl, (likeMatch_percent [] r).mpr ⟨[], List.nil_suffix, rfl⟩⟩

theorem likeMatch_suffix (t s : List Char) :
    likeMatch ('%' :: likeEscape t) s = true ↔ t <:+ s := by
  rw [likeMatch_percent]
  constructor
  · rintro ⟨r, hr, h⟩
    rw [← List.append_nil (likeEscape t)] at h
    obtain ⟨r', rfl, hr'⟩ := (likeMatch_escape_append _ _ _).mp h
    have hnil : r' = [] := by simpa [likeMatch, likeFrom] using hr'
    simpa [hnil] using hr
  · intro h
    refine ⟨t, h, ?_⟩
    rw [← List.append_nil (likeEscape t)]
    exact (likeMatch_escape_append _ _ _).mpr ⟨[], by simp, rfl⟩

theorem likeMatch_infix (t s : List Char) :
    likeMatch ('%' :: (likeEscape t ++ ['%'])) s = true ↔ t <:+: s := by
  rw [likeMatch_percent]
  simp only [likeMatch_startsWith]
  constructor
  · rintro ⟨r, hr, ht⟩
    exact ht.isInfix.trans hr.isInfix
  · rintro ⟨a, b, rfl⟩
    exact ⟨t ++ b, ⟨a, by simp⟩, List.prefix_append _ _⟩

end AltrStream.Foundations
