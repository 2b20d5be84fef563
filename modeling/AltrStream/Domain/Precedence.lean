import AltrStream.Domain.SemVer
import AltrStream.Foundations.FallibleSort
import Mathlib.Data.Nat.Digits.Defs
import Mathlib.Data.List.Lex
import Mathlib.Data.Prod.Lex
import Mathlib.Data.String.Basic
import Mathlib.Data.Sum.Order
import Mathlib.Order.WithBot

/-! # The order of semantic versions

The precedence of Semantic Versioning 2.0.0 is the order of a key in a linear order. `a < b` and
`a == b` of the code follow it where the identifiers that decide can be told apart.
-/
namespace AltrStream.Domain.SemVer
open Foundations Python

/-! ### Precedence -/

/-- A pre-release identifier: a number, which comes before every text, or a text. -/
abbrev Identifier := ℕ ⊕ₗ String

abbrev Precedence := ℕ ×ₗ ℕ ×ₗ ℕ ×ₗ WithTop (List Identifier)

/-- The first identifiers that differ. -/
def AtFirstDifference (rel : String → String → Prop) (ps qs : List String) : Prop :=
  ∀ common p ps' q qs', ps = common ++ p :: ps' → qs = common ++ q :: qs' → p ≠ q → rel p q

/-- The identifiers that decide between pre-releases of the same version. -/
def Deciding (rel : String → String → Prop) (a b : SemVer) : Prop :=
  (a.major, a.minor, a.patch) = (b.major, b.minor, b.patch) →
    ∀ p q, a.prerelease = some p → b.prerelease = some q →
      AtFirstDifference rel (split '.' p) (split '.' q)

section
variable (u : Unicode)

def identifier (part : String) : Identifier :=
  if isNumeric u part then Sum.inlₗ (u.decimalValue part.toList) else Sum.inrₗ part

/-- Identifiers are compared in order, and fewer of them come first; a release comes after all its
pre-releases. -/
def prereleaseKey : Option String → WithTop (List Identifier)
  | none => ⊤
  | some p => ((split '.' p).map (identifier u) : List Identifier)

def precedence (v : SemVer) : Precedence :=
  toLex (v.major, toLex (v.minor, toLex (v.patch, prereleaseKey u v.prerelease)))

/-- The version can be parsed from a text. -/
def Parsed (v : SemVer) : Prop := ∃ text, tryParse u text = some v

/-- Two identifiers that differ are not both numeric, or `int` reads both and the numbers differ. -/
def Distinguished (p q : String) : Prop :=
  isNumeric u p → isNumeric u q → (p.toList.length ≤ 4300 ∧ q.toList.length ≤ 4300) ∧
    u.decimalValue p.toList ≠ u.decimalValue q.toList

/-- Two identifiers that differ are not both numeric, or `int` reads both. -/
def Bounded (p q : String) : Prop :=
  isNumeric u p → isNumeric u q → p.toList.length ≤ 4300 ∧ q.toList.length ≤ 4300

/-- Pre-releases of the same version can be told apart. -/
def Comparable (a b : SemVer) : Prop := Deciding (Distinguished u) a b

end

/-- `hash(a)`, for the `hash` of tuples. -/
def hash (tupleHash : ℕ × ℕ × ℕ × Option String → ℤ) (v : SemVer) : ℤ :=
  tupleHash (v.major, v.minor, v.patch, v.prerelease)

/-- The pre-release is in the grammar of the specification, which knows the ASCII digits only. -/
def Ascii (v : SemVer) : Prop := ∀ p, v.prerelease = some p → ∀ c ∈ p.toList, c.toNat < 128

section
variable {u : Unicode} {p q r : String} {ps qs rs : List String}

/-! ### Identifiers -/

/-- Two identifiers that differ. -/
def identLt (u : Unicode) (sp op : String) : Except String Bool :=
  match isNumeric u sp, isNumeric u op with
  | true, true => do return (← u.int sp.toList) < (← u.int op.toList)
  | true, false => .ok true
  | false, true => .ok false
  | false, false => .ok (sp < op)

theorem partsLt_cons_cons : partsLt u (p :: ps) (q :: qs) =
    if p = q then partsLt u ps qs else identLt u p q := rfl

theorem partsLt_nil_left : partsLt u [] qs = .ok (0 < qs.length) := by cases qs <;> rfl

theorem partsLt_nil_right : partsLt u ps [] = .ok false := by cases ps <;> rfl

/-- The digits of a numeric identifier are decimal digits. -/
def Readable (u : Unicode) (p : String) : Prop := isNumeric u p → ∀ c ∈ p.toList, u.isDecimal c

theorem int_of_readable (hp : Readable u p) (hnum : isNumeric u p) (hlen : p.toList.length ≤ 4300) :
    u.int p.toList = .ok (u.decimalValue p.toList) := by
  have hall : p.toList.takeWhile u.isDecimal = p.toList := List.takeWhile_eq_self_iff.2 (hp hnum)
  unfold Unicode.int
  simp only [hall, if_neg (not_lt.2 hlen), if_true]

theorem int_of_long (hp : Readable u p) (hnum : isNumeric u p) (hlen : 4300 < p.toList.length) :
    ∃ message, u.int p.toList = .error message := by
  have hall : p.toList.takeWhile u.isDecimal = p.toList := List.takeWhile_eq_self_iff.2 (hp hnum)
  unfold Unicode.int
  simp only [hall, if_pos hlen]
  exact ⟨_, rfl⟩

theorem identLt_of_distinguished (hp : Readable u p) (hq : Readable u q) (h : Distinguished u p q) :
    identLt u p q = .ok (decide (identifier u p < identifier u q)) := by
  unfold identLt identifier
  cases hpn : isNumeric u p <;> cases hqn : isNumeric u q
  case true.true =>
    obtain ⟨⟨hplen, hqlen⟩, -⟩ := h hpn hqn
    simp only [if_true, int_of_readable hp hpn hplen, int_of_readable hq hqn hqlen]
    simp [bind, Except.bind, pure, Except.pure]
  case true.false => simp
  case false.true => simp
  case false.false => simp

theorem identifier_ne_of_distinguished (hne : p ≠ q) (h : Distinguished u p q) :
    identifier u p ≠ identifier u q := by
  unfold identifier
  cases hpn : isNumeric u p <;> cases hqn : isNumeric u q
  case true.true => simpa using (h hpn hqn).2
  case true.false => simp
  case false.true => simp
  case false.false => simpa using hne

/-! ### Lists of identifiers -/

section
variable {rel : String → String → Prop}

theorem AtFirstDifference.tail (h : AtFirstDifference rel (p :: ps) (p :: qs)) :
    AtFirstDifference rel ps qs := by
  intro common p' ps' q' qs' hps hqs hne
  exact h (p :: common) p' ps' q' qs' (by rw [hps, List.cons_append]) (by rw [hqs, List.cons_append]) hne

theorem AtFirstDifference.head (h : AtFirstDifference rel (p :: ps) (q :: qs)) (hne : p ≠ q) :
    rel p q := h [] p ps q qs rfl rfl hne

theorem atFirstDifference_cons (hhead : p ≠ q → rel p q)
    (htail : p = q → AtFirstDifference rel ps qs) : AtFirstDifference rel (p :: ps) (q :: qs) := by
  intro common p' ps' q' qs' hps hqs hne
  cases common with
  | nil =>
    obtain ⟨rfl, -⟩ := List.cons.inj hps
    obtain ⟨rfl, -⟩ := List.cons.inj hqs
    exact hhead hne
  | cons c common =>
    obtain ⟨hp, hpsTail⟩ := List.cons.inj hps
    obtain ⟨hq, hqsTail⟩ := List.cons.inj hqs
    exact htail (hp.trans hq.symm) common p' ps' q' qs' hpsTail hqsTail hne

theorem Deciding.symm {a b : SemVer} (hrel : ∀ {p q}, rel p q → rel q p) (h : Deciding rel a b) :
    Deciding rel b a := by
  intro hcore p q hp hq common p' ps' q' qs' hps hqs hne
  exact hrel (h hcore.symm q p hq hp common q' qs' p' ps' hqs hps hne.symm)

theorem deciding_self (a : SemVer) : Deciding rel a a := by
  intro _ p q hp hq common p' ps' q' qs' hps hqs hne
  obtain rfl := Option.some.inj (hp.symm.trans hq)
  exact absurd (List.cons.inj (List.append_cancel_left (hps.symm.trans hqs))).1 hne

end

theorem Distinguished.symm (h : Distinguished u p q) : Distinguished u q p := by
  intro hqn hpn
  obtain ⟨⟨hplen, hqlen⟩, hvalue⟩ := h hpn hqn
  exact ⟨⟨hqlen, hplen⟩, hvalue.symm⟩

theorem Bounded.symm (h : Bounded u p q) : Bounded u q p := fun hqn hpn => (h hpn hqn).symm

/-- Identifiers that can be told apart are compared as the lists of their keys. -/
theorem partsLt_eq (hps : ∀ p ∈ ps, Readable u p) (hqs : ∀ q ∈ qs, Readable u q)
    (h : AtFirstDifference (Distinguished u) ps qs) :
    partsLt u ps qs = .ok (decide (ps.map (identifier u) < qs.map (identifier u))) := by
  induction ps generalizing qs with
  | nil =>
    rw [partsLt_nil_left]
    cases qs <;> simp
  | cons p ps ih =>
    cases qs with
    | nil =>
      rw [partsLt_nil_right]
      simp
    | cons q qs =>
      obtain ⟨hp, hpsTail⟩ := List.forall_mem_cons.1 hps
      obtain ⟨hq, hqsTail⟩ := List.forall_mem_cons.1 hqs
      rw [partsLt_cons_cons, List.map_cons, List.map_cons]
      split_ifs with heq
      · subst heq
        rw [ih hpsTail hqsTail h.tail]
        simp
      · have hne := identifier_ne_of_distinguished heq (h.head heq)
        rw [identLt_of_distinguished hp hq (h.head heq)]
        simp [List.cons_lt_cons_iff, hne]

/-- Identifiers that can be told apart have different keys if they differ. -/
theorem map_identifier_injective (h : AtFirstDifference (Distinguished u) ps qs)
    (heq : ps.map (identifier u) = qs.map (identifier u)) : ps = qs := by
  induction ps generalizing qs with
  | nil => exact (List.map_eq_nil_iff.1 heq.symm).symm
  | cons p ps ih =>
    cases qs with
    | nil => cases heq
    | cons q qs =>
      obtain ⟨hhead, htail⟩ := List.cons.inj heq
      by_cases hpq : p = q
      · subst hpq
        rw [ih h.tail htail]
      · exact absurd hhead (identifier_ne_of_distinguished hpq (h.head hpq))

theorem partsLt_append (common : List String) (hne : p ≠ q) :
    partsLt u (common ++ p :: ps) (common ++ q :: qs) = identLt u p q := by
  induction common with
  | nil => rw [List.nil_append, List.nil_append, partsLt_cons_cons, if_neg hne]
  | cons c common ih => rw [List.cons_append, List.cons_append, partsLt_cons_cons, if_pos rfl, ih]

theorem split_injective {c : Char} {s t : String} (h : split c s = split c t) : s = t := by
  have hpieces : s.toList.splitOn c = t.toList.splitOn c :=
    List.map_injective_iff.2 (fun _ _ => String.ofList_injective) h
  have hjoin := congrArg [c].intercalate hpieces
  rwa [List.intercalate_splitOn, List.intercalate_splitOn, String.toList_inj] at hjoin

/-! ### Transitivity -/

theorem identLt_irrefl (p : String) : identLt u p p ≠ .ok true := by
  unfold identLt
  cases isNumeric u p with
  | true => cases u.int p.toList <;> simp [bind, Except.bind, pure, Except.pure]
  | false => simp

/-- Comparing two numeric identifiers reads both. -/
theorem identLt_numeric_iff (hp : isNumeric u p) (hq : isNumeric u q) :
    identLt u p q = .ok true ↔ ∃ m n, u.int p.toList = .ok m ∧ u.int q.toList = .ok n ∧ m < n := by
  simp only [identLt, hp, hq, bind_eq_ok, pure_eq_ok, decide_eq_true_eq]
  constructor
  · rintro ⟨m, hm, n, hn, hlt⟩
    exact ⟨m, n, hm, hn, hlt⟩
  · rintro ⟨m, n, hm, hn, hlt⟩
    exact ⟨m, hm, n, hn, hlt⟩

theorem identLt_trans (h₁ : identLt u p q = .ok true) (h₂ : identLt u q r = .ok true) :
    identLt u p r = .ok true := by
  cases hp : isNumeric u p <;> cases hq : isNumeric u q <;> cases hr : isNumeric u r
  case true.true.true =>
    rw [identLt_numeric_iff hp hq] at h₁
    rw [identLt_numeric_iff hq hr] at h₂
    obtain ⟨m, n, hm, hn, hmn⟩ := h₁
    obtain ⟨n', k, hn', hk, hnk⟩ := h₂
    obtain rfl : n = n' := Except.ok.inj (hn.symm.trans hn')
    exact (identLt_numeric_iff hp hr).2 ⟨m, k, hm, hk, hmn.trans hnk⟩
  case false.false.false =>
    simp only [identLt, hp, hq, hr, Except.ok.injEq, decide_eq_true_eq] at h₁ h₂ ⊢
    exact h₁.trans h₂
  all_goals simp_all [identLt]

theorem partsLt_trans (h₁ : partsLt u ps qs = .ok true) (h₂ : partsLt u qs rs = .ok true) :
    partsLt u ps rs = .ok true := by
  induction ps generalizing qs rs with
  | nil =>
    cases rs with
    | nil => rw [partsLt_nil_right] at h₂; cases h₂
    | cons r rs => rfl
  | cons p ps ih =>
    cases qs with
    | nil => rw [partsLt_nil_right] at h₁; cases h₁
    | cons q qs =>
      cases rs with
      | nil => rw [partsLt_nil_right] at h₂; cases h₂
      | cons r rs =>
        rw [partsLt_cons_cons] at h₁ h₂ ⊢
        by_cases hpq : p = q
        · subst hpq
          by_cases hpr : p = r
          · rw [if_pos rfl] at h₁
            rw [if_pos hpr] at h₂ ⊢
            exact ih h₁ h₂
          · rwa [if_neg hpr] at h₂ ⊢
        · rw [if_neg hpq] at h₁
          by_cases hqr : q = r
          · subst hqr
            rwa [if_neg hpq]
          · rw [if_neg hqr] at h₂
            have hpr : p ≠ r := by
              rintro rfl
              exact identLt_irrefl p (identLt_trans h₁ h₂)
            rw [if_neg hpr]
            exact identLt_trans h₁ h₂

end

/-! ### Versions -/

section
variable {u : Unicode} {a b c : SemVer} {p q : String} {ps qs : List String}

/-- What a text is parsed to has pre-release identifiers of the grammar only. -/
theorem Parsed.isPrereleaseIdent (h : Parsed u a) {p : String} (hp : a.prerelease = some p) :
    ∀ part ∈ split '.' p, isPrereleaseIdent u part.toList := by
  obtain ⟨text, h⟩ := h
  unfold tryParse at h
  dsimp only at h
  split at h
  case h_1 major minor patch hcore =>
    simp only [Option.bind_eq_bind, Option.bind_eq_some_iff, Option.pure_def, Option.some.injEq] at h
    obtain ⟨prerelease, hprerelease, build, -, _, -, _, -, _, -, rfl⟩ := h
    obtain rfl : prerelease = some p := hp
    unfold identifiers at hprerelease
    split at hprerelease
    case h_1 => cases hprerelease
    case h_2 s _ =>
      split_ifs at hprerelease with hall
      obtain rfl := Option.some.inj (Option.some.inj hprerelease)
      intro part hpart
      obtain ⟨piece, hpiece, rfl⟩ := List.mem_map.1 hpart
      rw [String.toList_ofList] at hpiece ⊢
      exact List.all_eq_true.1 hall piece hpiece
  case h_2 => cases h

theorem isDecimal_digit (tables : AsciiTables u) {c : Char} (hlow : '0' ≤ c) (hhigh : c ≤ '9') :
    u.isDecimal c := by
  have hlow : '0'.toNat ≤ c.toNat := hlow
  have hhigh : c.toNat ≤ '9'.toNat := hhigh
  have hascii : c.toNat < 128 := hhigh.trans_lt (by decide)
  rw [Unicode.isDecimal, tables.decimal c hascii, asciiDigit?, if_pos ⟨hlow, hhigh⟩]
  rfl

/-- A letter or a hyphen is no digit. -/
theorem isdigit_of_isAlpha (tables : AsciiTables u) {c : Char} (h : (c.isAlpha || c = '-') = true) :
    u.isdigit c = false := by
  have hascii : c.toNat < 128 := by
    delta Char.isAlpha Char.isUpper Char.isLower at h
    simp only [Bool.or_eq_true, Bool.and_eq_true, decide_eq_true_eq] at h
    simp only [Char.toNat, ge_iff_le, UInt32.le_iff_toNat_le] at h ⊢
    rcases h with (h | h) | rfl
    · exact h.2.trans_lt (by decide)
    · exact h.2.trans_lt (by decide)
    · decide
  rw [tables.isdigit c hascii]
  have hall : ∀ n < 128, ((Char.ofNat n).isAlpha || Char.ofNat n = '-') = true →
      (Char.ofNat n).isDigit = false := by decide
  have hc := hall c.toNat hascii
  rw [Char.ofNat_toNat] at hc
  exact hc h

/-- The identifiers of the grammar that consist of digits are its numbers. -/
theorem isNumericIdent_of_isNumeric (tables : AsciiTables u) (h : isPrereleaseIdent u p.toList)
    (hnum : isNumeric u p) : isNumericIdent u p.toList := by
  rw [isPrereleaseIdent, Bool.or_eq_true] at h
  refine h.resolve_right fun halpha => ?_
  unfold isAlphaIdent at halpha
  split at halpha
  case h_1 c rest hdrop =>
    rw [Bool.and_eq_true] at halpha
    have hmem : c ∈ p.toList := by
      refine (List.dropWhile_sublist u.isDecimal).subset ?_
      rw [hdrop]
      exact List.mem_cons_self
    simp only [isNumeric, Bool.and_eq_true, List.all_eq_true] at hnum
    have hdigit := hnum.2 c hmem
    rw [isdigit_of_isAlpha tables halpha.1] at hdigit
    cases hdigit
  case h_2 => cases halpha

theorem isDecimal_of_isNumericIdent (tables : AsciiTables u) {s : List Char} (h : isNumericIdent u s) :
    ∀ c ∈ s, u.isDecimal c := by
  unfold isNumericIdent at h
  split at h
  case h_1 => cases h
  case h_2 => simpa using isDecimal_digit tables le_rfl (by decide)
  case h_3 c rest _ =>
    simp only [Bool.and_eq_true, decide_eq_true_eq, List.all_eq_true] at h
    refine List.forall_mem_cons.2 ⟨isDecimal_digit tables ?_ h.1.2, h.2⟩
    exact le_trans (by decide) h.1.1

/-- The identifiers of the grammar are numeric if they are digits, and then `int` knows them. -/
theorem readable_of_isPrereleaseIdent (tables : AsciiTables u) (h : isPrereleaseIdent u p.toList) :
    Readable u p :=
  fun hnum => isDecimal_of_isNumericIdent tables (isNumericIdent_of_isNumeric tables h hnum)

theorem Parsed.readable (tables : AsciiTables u) (h : Parsed u a) {p : String}
    (hp : a.prerelease = some p) : ∀ part ∈ split '.' p, Readable u part :=
  fun part hpart => readable_of_isPrereleaseIdent tables (h.isPrereleaseIdent hp part hpart)

theorem precedence_lt_iff : precedence u a < precedence u b ↔
    a.major < b.major ∨ a.major = b.major ∧ (a.minor < b.minor ∨ a.minor = b.minor ∧
      (a.patch < b.patch ∨ a.patch = b.patch ∧
        prereleaseKey u a.prerelease < prereleaseKey u b.prerelease)) := by
  simp only [precedence, Prod.Lex.toLex_lt_toLex]

theorem precedence_eq_iff : precedence u a = precedence u b ↔
    a.major = b.major ∧ a.minor = b.minor ∧ a.patch = b.patch ∧
      prereleaseKey u a.prerelease = prereleaseKey u b.prerelease := by
  simp only [precedence, EmbeddingLike.apply_eq_iff_eq, Prod.mk.injEq]

/-- Versions that can be told apart are compared by precedence. -/
theorem lt_eq (tables : AsciiTables u) (ha : Parsed u a) (hb : Parsed u b) (h : Comparable u a b) :
    lt u a b = .ok (decide (precedence u a < precedence u b)) := by
  unfold lt
  split_ifs with hcore
  · refine congrArg Except.ok ?_
    rw [Bool.eq_iff_iff, decide_eq_true_eq, precedence_lt_iff]
    simp only [Bool.or_eq_true, Bool.and_eq_true, decide_eq_true_eq]
    simp only [ne_eq, Prod.mk.injEq, not_and] at hcore
    constructor
    · rintro (hlt | ⟨heq, hlt | ⟨heq', hlt⟩⟩)
      · exact .inl hlt
      · exact .inr ⟨heq, .inl hlt⟩
      · exact .inr ⟨heq, .inr ⟨heq', .inl hlt⟩⟩
    · rintro (hlt | ⟨heq, hlt | ⟨heq', hlt | ⟨heq'', -⟩⟩⟩)
      · exact .inl hlt
      · exact .inr ⟨heq, .inl hlt⟩
      · exact .inr ⟨heq, .inr ⟨heq', hlt⟩⟩
      · exact absurd heq'' (hcore heq heq')
  · have hcore := not_not.1 hcore
    have hparts := h hcore
    simp only [Prod.mk.injEq] at hcore
    obtain ⟨hmajor, hminor, hpatch⟩ := hcore
    have hiff := @precedence_lt_iff u a b
    simp only [hmajor, hminor, hpatch, lt_irrefl, false_or, true_and] at hiff
    simp only [hiff]
    cases hpa : a.prerelease with
    | none => simp [prereleaseKey]
    | some p =>
      cases hpb : b.prerelease with
      | none => simp [prereleaseKey]
      | some q =>
        dsimp only [prereleaseKey]
        rw [partsLt_eq (ha.readable tables hpa) (hb.readable tables hpb) (hparts p q hpa hpb)]
        simp only [WithTop.coe_lt_coe]

theorem same_eq (h : Comparable u a b) : same a b = decide (precedence u a = precedence u b) := by
  rw [Bool.eq_iff_iff, decide_eq_true_eq, precedence_eq_iff]
  simp only [same, Bool.and_eq_true, decide_eq_true_eq]
  constructor
  · rintro ⟨⟨⟨hmajor, hminor⟩, hpatch⟩, hprerelease⟩
    exact ⟨hmajor, hminor, hpatch, by rw [hprerelease]⟩
  · rintro ⟨hmajor, hminor, hpatch, hkeys⟩
    refine ⟨⟨⟨hmajor, hminor⟩, hpatch⟩, ?_⟩
    have hparts := h (by rw [hmajor, hminor, hpatch])
    cases hpa : a.prerelease <;> cases hpb : b.prerelease
    case none.none => rfl
    case none.some => simp [hpa, hpb, prereleaseKey] at hkeys
    case some.none => simp [hpa, hpb, prereleaseKey] at hkeys
    case some.some p q =>
      simp only [hpa, hpb, prereleaseKey, WithTop.coe_eq_coe] at hkeys
      rw [split_injective (map_identifier_injective (hparts p q hpa hpb) hkeys)]

theorem Comparable.symm (h : Comparable u a b) : Comparable u b a := Deciding.symm Distinguished.symm h

/-! ### ASCII versions -/

theorem decimalValue_ascii (tables : AsciiTables u) {s : List Char} (hs : ∀ c ∈ s, c.toNat < 128) :
    u.decimalValue s = Unicode.ascii.decimalValue s := by
  unfold Unicode.decimalValue
  refine List.foldl_ext _ _ _ fun n c hc => ?_
  rw [tables.decimal c (hs c hc)]
  rfl

theorem identifier_ascii (tables : AsciiTables u) {p : String} (hp : ∀ c ∈ p.toList, c.toNat < 128) :
    identifier u p = identifier .ascii p := by
  have hnum : isNumeric u p = isNumeric .ascii p := by
    have hall : p.toList.all u.isdigit = p.toList.all Unicode.ascii.isdigit := by
      rw [Bool.eq_iff_iff, List.all_eq_true, List.all_eq_true]
      exact forall₂_congr fun c hc => by rw [tables.isdigit c (hp c hc)]; rfl
    rw [isNumeric, isNumeric, hall]
  rw [identifier, identifier, hnum, decimalValue_ascii tables hp]

/-- The precedence of an ASCII version does not depend on the tables. -/
theorem Ascii.precedence_eq (tables : AsciiTables u) (ha : a.Ascii) :
    precedence u a = precedence .ascii a := by
  have hkey : prereleaseKey u a.prerelease = prereleaseKey .ascii a.prerelease := by
    cases hp : a.prerelease with
    | none => rfl
    | some p =>
      refine congrArg WithTop.some (List.map_congr_left fun part hpart => ?_)
      exact identifier_ascii tables fun c hc => ha p hp c (mem_split hpart hc)
  rw [precedence, precedence, hkey]

/-- The value of an ASCII digit. -/
def digitValue (c : Char) : ℕ := (asciiDigit? c).getD 0

theorem decimalValue_eq_ofDigits (s : List Char) :
    Unicode.ascii.decimalValue s = Nat.ofDigits 10 (s.map digitValue).reverse := by
  induction s using List.reverseRecOn with
  | nil => rfl
  | append_singleton s c ih =>
    rw [List.map_append, List.map_singleton, List.reverse_append, List.reverse_singleton,
      List.singleton_append, Nat.ofDigits_cons, ← ih, Unicode.decimalValue, List.foldl_append,
      List.foldl_cons, List.foldl_nil]
    exact Nat.add_comm _ _

theorem digit_bounds {c : Char} (h : Unicode.ascii.isDecimal c) : '0'.toNat ≤ c.toNat ∧ c.toNat ≤ '9'.toNat := by
  by_contra hnot
  have hnone : Unicode.ascii.decimal? c = none := if_neg hnot
  rw [Unicode.isDecimal, hnone] at h
  cases h

theorem digitValue_eq {c : Char} (h : Unicode.ascii.isDecimal c) : digitValue c = c.toNat - '0'.toNat := by
  rw [digitValue, asciiDigit?, if_pos (digit_bounds h)]
  rfl

theorem digits_decimalValue {s : List Char} (h : isNumericIdent .ascii s) (hzero : s ≠ ['0']) :
    Nat.digits 10 (Unicode.ascii.decimalValue s) = (s.map digitValue).reverse := by
  have hdecimal := isDecimal_of_isNumericIdent asciiTables_ascii h
  rw [decimalValue_eq_ofDigits]
  refine Nat.digits_ofDigits 10 (by norm_num) _ ?_ ?_
  · intro d hd
    obtain ⟨c, hc, rfl⟩ := List.mem_map.1 (List.mem_reverse.1 hd)
    have hbounds := digit_bounds (hdecimal c hc)
    have hnine : '9'.toNat = 57 := rfl
    have hzero : '0'.toNat = 48 := rfl
    rw [digitValue_eq (hdecimal c hc)]
    omega
  · unfold isNumericIdent at h
    split at h
    case h_1 => cases h
    case h_2 => exact absurd rfl hzero
    case h_3 c rest _ =>
      simp only [Bool.and_eq_true, decide_eq_true_eq] at h
      intro hne
      have hone : '1'.toNat ≤ c.toNat := h.1.1
      simp only [List.getLast_reverse, List.map_cons, List.head_cons]
      rw [digitValue_eq (hdecimal c List.mem_cons_self)]
      have hlow : '1'.toNat = 49 := rfl
      have hzero : '0'.toNat = 48 := rfl
      omega

/-- A number in ASCII digits is written in one way. -/
theorem decimalValue_injective {s t : List Char} (hs : isNumericIdent .ascii s)
    (ht : isNumericIdent .ascii t) (h : Unicode.ascii.decimalValue s = Unicode.ascii.decimalValue t) :
    s = t := by
  have hchars : ∀ {s : List Char}, isNumericIdent .ascii s →
      (s.map digitValue).map (fun d => Char.ofNat ('0'.toNat + d)) = s := by
    intro s hs
    rw [List.map_map]
    refine (List.map_congr_left fun c hc => ?_).trans (List.map_id _)
    have hdecimal := isDecimal_of_isNumericIdent asciiTables_ascii hs c hc
    rw [Function.comp_apply, digitValue_eq hdecimal, Nat.add_sub_cancel' (digit_bounds hdecimal).1,
      Char.ofNat_toNat, id_eq]
  have hzeroDigits : Nat.digits 10 (Unicode.ascii.decimalValue ['0']) = [] := by simp [Unicode.decimalValue, Unicode.ascii, asciiDigit?]
  have hnil : ∀ {s : List Char}, isNumericIdent .ascii s → s ≠ ['0'] →
      Nat.digits 10 (Unicode.ascii.decimalValue s) ≠ [] := by
    intro s hs hne hdigits
    rw [digits_decimalValue hs hne, List.reverse_eq_nil_iff, List.map_eq_nil_iff] at hdigits
    rw [hdigits] at hs
    cases hs
  have hdigits := congrArg (Nat.digits 10) h
  by_cases hszero : s = ['0'] <;> by_cases htzero : t = ['0']
  · rw [hszero, htzero]
  · rw [hszero, hzeroDigits] at hdigits
    exact absurd hdigits.symm (hnil ht htzero)
  · rw [htzero, hzeroDigits] at hdigits
    exact absurd hdigits (hnil hs hszero)
  · rw [digits_decimalValue hs hszero, digits_decimalValue ht htzero, List.reverse_inj] at hdigits
    rw [← hchars hs, hdigits, hchars ht]

/-! ### Total order -/

/-- The comparison of two versions is that of a total order, which for ASCII versions is their
precedence. -/
structure TotallyOrdered (u : Unicode) (tupleHash : ℕ × ℕ × ℕ × Option String → ℤ) (a b : SemVer) :
    Prop where
  decided : ∃ less greater, lt u a b = .ok less ∧ gt u a b = .ok greater ∧
    less.toNat + (same a b).toNat + greater.toNat = 1
  converse : gt u a b = lt u b a
  trans : ∀ c, Parsed u c → lt u a b = .ok true → lt u b c = .ok true → lt u a c = .ok true
  congr : same a b → ∀ c, Parsed u c → lt u a c = lt u b c ∧ lt u c a = lt u c b
  hash : same a b → a.hash tupleHash = b.hash tupleHash
  precedence : a.Ascii → b.Ascii →
    (lt u a b = .ok true ↔ precedence .ascii a < precedence .ascii b) ∧
      (same a b ↔ precedence .ascii a = precedence .ascii b)

/-- The number of a version in front of its pre-release. -/
def core (v : SemVer) : ℕ ×ₗ ℕ ×ₗ ℕ := toLex (v.major, toLex (v.minor, v.patch))

/-- A pre-release comes before the release, and before the pre-releases with greater identifiers. -/
def prereleaseLt (u : Unicode) : Option String → Option String → Except String Bool
  | none, _ => .ok false
  | some _, none => .ok true
  | some p, some q => partsLt u (split '.' p) (split '.' q)

theorem lt_of_core (h : (a.major, a.minor, a.patch) = (b.major, b.minor, b.patch)) :
    lt u a b = prereleaseLt u a.prerelease b.prerelease := by
  rw [lt, if_neg (not_not.2 h)]
  cases a.prerelease <;> cases b.prerelease <;> rfl

theorem lt_eq_true_iff : lt u a b = .ok true ↔
    core a < core b ∨ core a = core b ∧ prereleaseLt u a.prerelease b.prerelease = .ok true := by
  have hcores : core a = core b ↔ (a.major, a.minor, a.patch) = (b.major, b.minor, b.patch) := by
    simp only [core, EmbeddingLike.apply_eq_iff_eq, Prod.mk.injEq]
  have hless : core a < core b ↔ (a.major < b.major || a.major = b.major &&
      (a.minor < b.minor || a.minor = b.minor && a.patch < b.patch)) = true := by
    simp only [core, Prod.Lex.toLex_lt_toLex, Bool.or_eq_true, Bool.and_eq_true, decide_eq_true_eq]
  by_cases h : core a = core b
  · rw [lt_of_core (hcores.1 h), h, lt_self_iff_false, false_or, and_iff_right rfl]
  · rw [lt, if_pos (mt hcores.2 h), Except.ok.injEq, ← hless, or_iff_left fun h' => h h'.1]

theorem prereleaseLt_trans {p q r : Option String} (hpq : prereleaseLt u p q = .ok true)
    (hqr : prereleaseLt u q r = .ok true) : prereleaseLt u p r = .ok true := by
  cases q with
  | none => cases hqr
  | some q =>
    cases p with
    | none => cases hpq
    | some p =>
      cases r with
      | none => rfl
      | some r => exact partsLt_trans hpq hqr

theorem lt_transitive (hab : lt u a b = .ok true) (hbc : lt u b c = .ok true) : lt u a c = .ok true := by
  rw [lt_eq_true_iff] at hab hbc ⊢
  rcases hab with hab | ⟨hab, hpab⟩ <;> rcases hbc with hbc | ⟨hbc, hpbc⟩
  · exact .inl (hab.trans hbc)
  · exact .inl (hab.trans_eq hbc)
  · exact .inl (hab.trans_lt hbc)
  · exact .inr ⟨hab.trans hbc, prereleaseLt_trans hpab hpbc⟩

theorem same_iff : same a b ↔
    (a.major, a.minor, a.patch, a.prerelease) = (b.major, b.minor, b.patch, b.prerelease) := by
  simp only [same, Bool.and_eq_true, decide_eq_true_eq, Prod.mk.injEq, and_assoc]

/-- Versions are compared by what `==` compares. -/
theorem lt_congr (h : same a b) : lt u a c = lt u b c ∧ lt u c a = lt u c b := by
  have h := same_iff.1 h
  simp only [Prod.mk.injEq] at h
  obtain ⟨hmajor, hminor, hpatch, hprerelease⟩ := h
  simp only [lt, hmajor, hminor, hpatch, hprerelease, and_self]

theorem gt_eq_ok {less : Bool} (h : lt u a b = .ok less) :
    gt u a b = .ok (!less && !same a b) := by
  rw [gt, h]
  rfl

theorem Comparable.totallyOrdered (tables : AsciiTables u)
    (tupleHash : ℕ × ℕ × ℕ × Option String → ℤ) (ha : Parsed u a) (hb : Parsed u b)
    (h : Comparable u a b) : TotallyOrdered u tupleHash a b := by
  have hless := lt_eq tables ha hb h
  have hgreater := gt_eq_ok hless
  have hsame := same_eq h
  have hconverse := lt_eq tables hb ha h.symm
  refine ⟨⟨_, _, hless, hgreater, ?_⟩, ?_, fun c _ => lt_transitive, fun hs c _ => lt_congr hs,
    fun hs => congrArg tupleHash (same_iff.1 hs), fun haAscii hbAscii => ?_⟩
  · rw [hsame]
    rcases lt_trichotomy (SemVer.precedence u a) (SemVer.precedence u b) with hab | hab | hab
    · simp [hab, hab.ne]
    · simp [hab]
    · simp [hab.ne', hab.not_gt]
  · rw [hgreater, hconverse, hsame]
    rcases lt_trichotomy (SemVer.precedence u a) (SemVer.precedence u b) with hab | hab | hab
    · simp [hab, hab.not_gt]
    · simp [hab]
    · simp [hab, hab.ne', hab.not_gt]
  · rw [hless, hsame, haAscii.precedence_eq tables, hbAscii.precedence_eq tables]
    simp

/-- Numeric identifiers that cannot be told apart: `int` refuses one of them, or neither comes
first. -/
theorem identLt_of_not_distinguished (hp : Readable u p) (hq : Readable u q)
    (h : ¬ Distinguished u p q) : (∃ message, identLt u p q = .error message) ∨
      identLt u p q = .ok false ∧ identLt u q p = .ok false := by
  simp only [Distinguished, Classical.not_imp] at h
  obtain ⟨hpn, hqn, h⟩ := h
  simp only [identLt, hpn, hqn]
  by_cases hplen : p.toList.length ≤ 4300
  · by_cases hqlen : q.toList.length ≤ 4300
    · have hvalue := not_not.1 fun hne => h ⟨⟨hplen, hqlen⟩, hne⟩
      rw [int_of_readable hp hpn hplen, int_of_readable hq hqn hqlen, hvalue]
      refine .inr ⟨?_, ?_⟩ <;> simp [bind, Except.bind, pure, Except.pure]
    · obtain ⟨message, hq⟩ := int_of_long hq hqn (not_le.1 hqlen)
      rw [int_of_readable hp hpn hplen, hq]
      exact .inl ⟨message, rfl⟩
  · obtain ⟨message, hp⟩ := int_of_long hp hpn (not_le.1 hplen)
    rw [hp]
    exact .inl ⟨message, rfl⟩

theorem TotallyOrdered.comparable (tables : AsciiTables u)
    {tupleHash : ℕ × ℕ × ℕ × Option String → ℤ} (ha : Parsed u a) (hb : Parsed u b)
    (h : TotallyOrdered u tupleHash a b) : Comparable u a b := by
  intro hcore pa pb hpa hpb common p ps q qs hps hqs hne
  by_contra hnot
  have hp : Readable u p := ha.readable tables hpa p (by rw [hps]; simp)
  have hq : Readable u q := hb.readable tables hpb q (by rw [hqs]; simp)
  have hab : lt u a b = identLt u p q := by
    rw [lt_of_core hcore, hpa, hpb, prereleaseLt, hps, hqs, partsLt_append common hne]
  have hba : lt u b a = identLt u q p := by
    rw [lt_of_core hcore.symm, hpa, hpb, prereleaseLt, hps, hqs, partsLt_append common hne.symm]
  rcases identLt_of_not_distinguished hp hq hnot with ⟨message, hraises⟩ | ⟨hless, hgreater⟩
  · obtain ⟨less, greater, hless, -⟩ := h.decided
    rw [hab, hraises] at hless
    cases hless
  · have hsame : same a b = false := by
      rw [Bool.eq_false_iff]
      intro hsame
      have hprerelease := (Prod.mk.inj (Prod.mk.inj (Prod.mk.inj (same_iff.1 hsame)).2).2).2
      rw [hpa, hpb, Option.some.injEq] at hprerelease
      rw [hprerelease, hqs] at hps
      exact hne (List.cons.inj (List.append_cancel_left hps)).1.symm
    have hconverse := h.converse
    rw [gt_eq_ok (hab.trans hless), hba, hgreater, hsame] at hconverse
    cases hconverse

/-! ### Comparisons that give an answer -/

theorem identLt_answers_iff (hp : Readable u p) (hq : Readable u q) :
    (∃ less, identLt u p q = .ok less) ↔ Bounded u p q := by
  constructor
  · rintro ⟨less, h⟩ hpn hqn
    simp only [identLt, hpn, hqn, bind_eq_ok] at h
    obtain ⟨m, hm, n, hn, -⟩ := h
    refine ⟨not_lt.1 fun hlong => ?_, not_lt.1 fun hlong => ?_⟩
    · obtain ⟨message, hraises⟩ := int_of_long hp hpn hlong
      rw [hraises] at hm
      cases hm
    · obtain ⟨message, hraises⟩ := int_of_long hq hqn hlong
      rw [hraises] at hn
      cases hn
  · intro h
    unfold identLt
    cases hpn : isNumeric u p <;> cases hqn : isNumeric u q
    case true.true =>
      obtain ⟨hplen, hqlen⟩ := h hpn hqn
      dsimp only
      rw [int_of_readable hp hpn hplen, int_of_readable hq hqn hqlen]
      exact ⟨_, rfl⟩
    all_goals exact ⟨_, rfl⟩

theorem partsLt_answers (hps : ∀ p ∈ ps, Readable u p) (hqs : ∀ q ∈ qs, Readable u q)
    (h : AtFirstDifference (Bounded u) ps qs) : ∃ less, partsLt u ps qs = .ok less := by
  induction ps generalizing qs with
  | nil => exact ⟨_, partsLt_nil_left⟩
  | cons p ps ih =>
    cases qs with
    | nil => exact ⟨_, partsLt_nil_right⟩
    | cons q qs =>
      obtain ⟨hp, hpsTail⟩ := List.forall_mem_cons.1 hps
      obtain ⟨hq, hqsTail⟩ := List.forall_mem_cons.1 hqs
      rw [partsLt_cons_cons]
      split_ifs with heq
      · subst heq
        exact ih hpsTail hqsTail h.tail
      · exact (identLt_answers_iff hp hq).2 (h.head heq)

/-- Two versions can be compared if `int` reads the identifiers that decide. -/
theorem answers_iff (tables : AsciiTables u) (ha : Parsed u a) (hb : Parsed u b) :
    Compares (lt u) a b ↔ Deciding (Bounded u) a b := by
  constructor
  · rintro ⟨less, h⟩ hcore pa pb hpa hpb common p ps q qs hps hqs hne
    rw [lt_of_core hcore, hpa, hpb, prereleaseLt, hps, hqs, partsLt_append common hne] at h
    exact (identLt_answers_iff (ha.readable tables hpa p (by rw [hps]; simp))
      (hb.readable tables hpb q (by rw [hqs]; simp))).1 ⟨less, h⟩
  · intro h
    by_cases hcore : (a.major, a.minor, a.patch) = (b.major, b.minor, b.patch)
    · rw [Compares, lt_of_core hcore]
      cases hpa : a.prerelease with
      | none => exact ⟨_, rfl⟩
      | some p =>
        cases hpb : b.prerelease with
        | none => exact ⟨_, rfl⟩
        | some q =>
          exact partsLt_answers (ha.readable tables hpa) (hb.readable tables hpb)
            (h hcore p q hpa hpb)
    · exact ⟨_, by rw [lt, if_pos hcore]⟩

/-- A numeric identifier of an ASCII version is a number without leading zeros. -/
theorem isNumericIdent_of_ascii (tables : AsciiTables u) (h : isPrereleaseIdent u p.toList)
    (hnum : isNumeric u p) (hp : ∀ c ∈ p.toList, c.toNat < 128) : isNumericIdent .ascii p.toList := by
  have h := isNumericIdent_of_isNumeric tables h hnum
  unfold isNumericIdent at h ⊢
  split at h
  case h_1 => cases h
  case h_2 => rfl
  case h_3 c rest _ hcons =>
    rw [hcons] at hp
    have hrest : ∀ d ∈ rest, Unicode.ascii.isDecimal d = u.isDecimal d := by
      intro d hd
      rw [Unicode.isDecimal, Unicode.isDecimal, tables.decimal d (hp d (List.mem_cons_of_mem _ hd))]
      rfl
    simp only [Bool.and_eq_true, List.all_eq_true] at h ⊢
    exact ⟨h.1, fun d hd => (hrest d hd).trans (h.2 d hd)⟩

/-- ASCII versions that can be compared can be told apart. -/
theorem Ascii.comparable (tables : AsciiTables u) (ha : Parsed u a) (hb : Parsed u b)
    (haAscii : a.Ascii) (hbAscii : b.Ascii) (h : Compares (lt u) a b) : Comparable u a b := by
  have hbounded := (answers_iff tables ha hb).1 h
  intro hcore pa pb hpa hpb common p ps q qs hps hqs hne hpn hqn
  have hpart : p ∈ split '.' pa := by rw [hps]; simp
  have hqart : q ∈ split '.' pb := by rw [hqs]; simp
  have hpAscii : ∀ c ∈ p.toList, c.toNat < 128 := fun c hc => haAscii pa hpa c (mem_split hpart hc)
  have hqAscii : ∀ c ∈ q.toList, c.toNat < 128 := fun c hc => hbAscii pb hpb c (mem_split hqart hc)
  refine ⟨hbounded hcore pa pb hpa hpb common p ps q qs hps hqs hne hpn hqn, fun hvalue => hne ?_⟩
  rw [decimalValue_ascii tables hpAscii, decimalValue_ascii tables hqAscii] at hvalue
  refine String.toList_inj.1 (decimalValue_injective ?_ ?_ hvalue)
  · exact isNumericIdent_of_ascii tables (ha.isPrereleaseIdent hpa p hpart) hpn hpAscii
  · exact isNumericIdent_of_ascii tables (hb.isPrereleaseIdent hpb q hqart) hqn hqAscii

/-- The comparison of two parsed versions is that of a total order, with precedence as the order of
ASCII versions, if the first identifiers that differ can be told apart. -/
theorem totallyOrdered_iff (tables : AsciiTables u) (tupleHash : ℕ × ℕ × ℕ × Option String → ℤ)
    (ha : Parsed u a) (hb : Parsed u b) : TotallyOrdered u tupleHash a b ↔ Comparable u a b :=
  ⟨TotallyOrdered.comparable tables ha hb, Comparable.totallyOrdered tables tupleHash ha hb⟩

end

theorem totallyOrdered_iff_alpha : TotallyOrdered .ascii (fun _ => 0)
    { major := 1, minor := 0, patch := 0, prerelease := some "alpha.2" }
    { major := 1, minor := 0, patch := 0, prerelease := some "alpha.10" } := by
  refine (totallyOrdered_iff asciiTables_ascii (fun _ => 0) ⟨"1.0.0-alpha.2", by decide⟩
    ⟨"v1.0.0-alpha.10", by decide⟩).2 ?_
  intro _ p q hp hq
  obtain rfl := Option.some.inj hp
  obtain rfl := Option.some.inj hq
  have hleft : split '.' "alpha.2" = ["alpha", "2"] := by decide
  have hright : split '.' "alpha.10" = ["alpha", "10"] := by decide
  rw [hleft, hright]
  refine atFirstDifference_cons (fun hne => absurd rfl hne) fun _ => atFirstDifference_cons ?_ ?_
  · exact fun _ _ _ => by decide
  · exact fun heq => absurd heq (by decide)

/-- The ASCII characters and the Arabic-Indic digits. -/
def arabicIndic : Unicode where
  isdigit c := c.isDigit || (0x660 ≤ c.toNat && c.toNat ≤ 0x669)
  isalpha := Char.isAlpha
  isalnum c := c.isAlphanum || (0x660 ≤ c.toNat && c.toNat ≤ 0x669)
  decimal? c := if 0x660 ≤ c.toNat ∧ c.toNat ≤ 0x669 then some (c.toNat - 0x660) else asciiDigit? c
  upper := Unicode.ascii.upper
  lower := Unicode.ascii.lower
  repr := Unicode.ascii.repr

theorem asciiTables_arabicIndic : AsciiTables arabicIndic where
  isdigit c hc := by
    have hnot : ¬ 0x660 ≤ c.toNat := by omega
    simp [arabicIndic, hnot]
  isalpha _ _ := rfl
  isalnum c hc := by
    have hnot : ¬ 0x660 ≤ c.toNat := by omega
    simp [arabicIndic, hnot]
  decimal c hc := if_neg (by omega)
  lower := asciiTables_ascii.lower

def twelve : SemVer := { major := 1, minor := 0, patch := 0, prerelease := some "12" }

/-- `1.0.0-12` with an Arabic-Indic two. -/
def arabicTwelve : SemVer := { major := 1, minor := 0, patch := 0, prerelease := some "1\u0662" }

/-- Each of the two versions is greater than the other. -/
theorem not_totallyOrdered_arabicTwelve : Parsed arabicIndic twelve ∧ Parsed arabicIndic arabicTwelve ∧
    ¬ TotallyOrdered arabicIndic (fun _ => 0) twelve arabicTwelve := by
  refine ⟨⟨"1.0.0-12", by decide⟩, ⟨"1.0.0-1\u0662", by decide⟩, fun h => ?_⟩
  have hconverse := h.converse
  revert hconverse
  decide

end AltrStream.Domain.SemVer
