import AltrStream.Python.FloatOrder
import AltrStream.Python.IsoOrder
import AltrStream.QueryEngine.LexerTotality
import AltrStream.QueryEngine.Accepted
import Mathlib.Data.String.Basic

/-! # Literal ranges

The bounds of a range are compared as floats, and a float does not tell large
integers apart. The lexer reads no sign, and what it reads as a float is rounded
already, so conversion never turns the bounds around: it can make them equal, and
it can fail.
-/
namespace AltrStream.QueryEngine
open Foundations Python

/-- The exact value of a number. -/
def LiteralValue.number? : LiteralValue → Option PyFloat
  | integer n => some (n : ℚ)
  | float x => some x
  | _ => none

/-- Bounds of one category, in the order of that category where both have a value. -/
inductive BoundsInOrder : LiteralValue → LiteralValue → Prop
  | numbers {start stop : LiteralValue} {x y : PyFloat} (hstart : start.number? = some x)
      (hstop : stop.number? = some y) (h : x ≤ y) : BoundsInOrder start stop
  | strings {start stop : String} (h : start ≤ stop) : BoundsInOrder (.string start) (.string stop)
  | dates {start stop : Date} (h : start.toordinal ≤ stop.toordinal) :
      BoundsInOrder (.temporal (.value start)) (.temporal (.value stop))
  | fromKeyword (keyword : TemporalKeyword) (stop : TemporalLiteral) :
      BoundsInOrder (.temporal (.keyword keyword)) (.temporal stop)
  | toKeyword (start : TemporalLiteral) (keyword : TemporalKeyword) :
      BoundsInOrder (.temporal start) (.temporal (.keyword keyword))

/-- A query whose WHERE tree asks for the range, or for a set of that range. -/
def AsksForRange (range : Range) (ir : AltrQueryIR) : Prop :=
  ∃ entity field operator operand,
    (operand = .range range ∨ operand = .valueSet [.range range]) ∧
      ir = { entity, where_ := some (.atom ⟨field, .comparison operator, operand⟩) }

/-- Ranges in order are accepted and no others, and a refusal is a semantic error. -/
structure ExactlyValidated (range : Range) : Prop where
  accepted : ∀ ir, AsksForRange range ir →
    (validateIr ir = .ok () ↔ BoundsInOrder range.start range.stop)
  refused : ∀ ir, AsksForRange range ir → ∀ e, validateIr ir = .error e → e.kind = .semanticError
  nonempty : ∀ ir, AsksForRange range ir → validateIr ir = .ok () →
    ∃ l, BoundsInOrder range.start l ∧ BoundsInOrder l range.stop

/-- Numeric bounds can be converted to floats, which are in the wrong order if the bounds are. -/
def ConvertedApart (range : Range) : Prop :=
  ∀ x y, range.start.number? = some x → range.stop.number? = some y →
    ∃ p q, floatOf range.start = .ok p ∧ floatOf range.stop = .ok q ∧ (y < x → q < p)

/-- The lexer produces the literal from some text. -/
def LexerProduces (u : Unicode) (l : LiteralValue) : Prop :=
  ∃ text tokens, Lexer.tokenize u text = .ok tokens ∧ ∃ t ∈ tokens, literalOf? t.type = some l

/-! ### The numbers of a text -/

/-- A number without a sign, and a rounded one if it is a float. -/
def TokenType.IsScanned : TokenType → Prop
  | .integer n => 0 ≤ n
  | .float x => ∃ q, 0 ≤ q ∧ x = PyFloat.ofRat q
  | _ => True

section
variable {u : Unicode}

namespace Lexer

theorem scanNumber_isScanned {cursor stop : Cursor} {t : Token}
    (h : scanNumber u cursor = .ok (t, stop)) : t.type.IsScanned := by
  have hint : ∀ {digits lexeme : List Char} {stop' : Cursor}, (do
      let value ← converted (u.int digits)
      return (token cursor (.integer value) lexeme, stop')) = Except.ok (t, stop) →
      t.type.IsScanned := by
    intro digits lexeme stop' h
    obtain ⟨n, hn, h⟩ := bind_eq_ok.1 h
    cases h
    unfold Unicode.int at hn
    dsimp only at hn
    split at hn
    · cases hn
    · split at hn
      · cases hn
        exact Int.natCast_nonneg _
      · cases hn
  unfold scanNumber at h
  dsimp only at h
  split at h
  · exact hint h
  · split at h
    · cases h
    · obtain ⟨x, hx, h⟩ := bind_eq_ok.1 h
      cases h
      unfold Unicode.float at hx
      split at hx
      · cases hx
        exact ⟨_, by positivity, rfl⟩
      · cases hx
  · exact hint h

theorem doubleToken?_isScanned {c : Char} {rest : List Char} {type : TokenType}
    (h : doubleToken? c rest = some type) : type.IsScanned := by
  unfold doubleToken? at h
  split at h <;> cases h <;> trivial

theorem singleToken?_isScanned {c : Char} {type : TokenType} (h : singleToken? c = some type) :
    type.IsScanned := by
  unfold singleToken? at h
  split at h <;> cases h <;> trivial

theorem reservedKeywords_isScanned : ∀ entry ∈ reservedKeywords, entry.2.IsScanned := by
  simp [reservedKeywords, TokenType.IsScanned]

theorem scanIdentifierOrKeyword_isScanned (cursor : Cursor) :
    (scanIdentifierOrKeyword u cursor).1.type.IsScanned := by
  unfold scanIdentifierOrKeyword
  dsimp only
  split
  · next type hlookup =>
    obtain ⟨before, after, hsplit, -⟩ := List.lookup_eq_some_iff.1 hlookup
    exact reservedKeywords_isScanned (_, type) (hsplit ▸ List.mem_append_right _ List.mem_cons_self)
  · trivial

theorem step_isScanned {cursor stop : Cursor} {c : Char} {rest : List Char} {t : Token}
    (h : step u c rest cursor = .ok (some t, stop)) : t.type.IsScanned := by
  rcases step_cases u h with hdouble | hsingle | hscan | hscan | ⟨-, hscan⟩ | hscan
  · exact doubleToken?_isScanned hdouble
  · exact singleToken?_isScanned hsingle
  · obtain ⟨s, hs⟩ := scanString_type hscan
    rw [hs]
    trivial
  · obtain ⟨d, hd⟩ := scanTemporalLiteral_type u hscan
    rw [hd]
    trivial
  · exact scanNumber_isScanned hscan
  · have hname := @scanIdentifierOrKeyword_isScanned u cursor
    rwa [hscan] at hname

end Lexer

/-- The number of a literal is not negative, and conversion to a float rounds it, or fails. -/
theorem LexerProduces.number {l : LiteralValue} {x : PyFloat} (h : LexerProduces u l)
    (hx : l.number? = some x) : 0 ≤ x ∧ ∀ p, floatOf l = .ok p → p = x.round := by
  obtain ⟨text, tokens, htokens, t, ht, hl⟩ := h
  have hscanned := Lexer.scan_forall u trivial (fun _ _ _ _ _ => Lexer.step_isScanned) htokens t ht
  cases htype : t.type with
  | integer n =>
    rw [htype] at hl hscanned
    cases hl
    cases hx
    refine ⟨WithTop.coe_nonneg.2 (Int.cast_nonneg hscanned), fun p hp => ?_⟩
    rw [floatOf] at hp
    split at hp
    · next q hq =>
      cases hp
      exact ((floatOfInt?_eq_some hscanned).1 hq).symm
    · cases hp
  | float y =>
    rw [htype] at hl hscanned
    cases hl
    cases hx
    obtain ⟨q, hq, rfl⟩ := hscanned
    obtain ⟨hpos, hround⟩ := PyFloat.round_ofRat hq
    refine ⟨hpos, ?_⟩
    rintro p ⟨⟩
    exact hround.symm
  | _ =>
    rw [htype] at hl
    cases hl <;> cases hx

end

/-! ### What the validator says of a range -/

theorem validateIr_asksForRange {range : Range} {ir : AltrQueryIR} (h : AsksForRange range ir) :
    validateIr ir = validateRange range := by
  obtain ⟨entity, field, operator, operand, hoperand, rfl⟩ := h
  rcases hoperand with rfl | rfl
  · rfl
  · change (do validateRange range; .ok ()) = validateRange range
    cases validateRange range <;> rfl

/-- Numbers are compared after their conversion. -/
theorem validateRange_numbers {start stop : LiteralValue} {x y : PyFloat}
    (hstart : start.number? = some x) (hstop : stop.number? = some y) :
    ∃ message, validateRange ⟨start, stop⟩ = (do
      let p ← floatOf start
      let q ← floatOf stop
      raiseIf (q < p) (semanticError message)) := by
  cases start with
  | integer m | float m =>
    cases stop with
    | integer n | float n => exact ⟨_, rfl⟩
    | _ => cases hstop
  | _ => cases hstart

/-- A conversion fails for a large integer only, and not with a semantic error. -/
theorem floatOf_error {l : LiteralValue} {e : PyError} (h : floatOf l = .error e) :
    e.kind = .overflowError := by
  cases l with
  | integer n =>
    rw [floatOf] at h
    split at h
    · cases h
    · cases h
      rfl
  | _ => cases h

/-- The answer of a check decides a condition, and it is a semantic error if it is not met. -/
def Decides (r : Except PyError Unit) (p : Prop) : Prop :=
  (r = .ok () ↔ p) ∧ ∀ e, r = .error e → e.kind = .semanticError

theorem Decides.raiseIf {p q : Prop} [Decidable p] {message : String} (h : ¬p ↔ q) :
    Decides (raiseIf p (semanticError message)) q := by
  refine ⟨raiseIf_eq_ok.trans h, fun e he => ?_⟩
  unfold Foundations.raiseIf at he
  split at he <;> cases he
  rfl

theorem Decides.error {q : Prop} {message : String} (h : ¬q) :
    Decides (.error (semanticError message)) q := by
  refine ⟨iff_of_false (by rintro ⟨⟩) h, ?_⟩
  rintro e ⟨⟩
  rfl

theorem Decides.ok {q : Prop} (h : q) : Decides (.ok ()) q := ⟨iff_of_true rfl h, by rintro e ⟨⟩⟩

theorem ordered_strings {start stop : String} :
    BoundsInOrder (.string start) (.string stop) ↔ start ≤ stop := by
  constructor
  · intro h
    cases h with
    | numbers hstart => cases hstart
    | strings h => exact h
  · exact .strings

theorem ordered_dates {start stop : Date} :
    BoundsInOrder (.temporal (.value start)) (.temporal (.value stop)) ↔
      start.toordinal ≤ stop.toordinal := by
  constructor
  · intro h
    cases h with
    | numbers hstart => cases hstart
    | dates h => exact h
  · exact .dates

theorem isoformat_lt_iff (d e : Date) : d.isoformat < e.isoformat ↔ d.toordinal < e.toordinal := by
  rw [String.lt_iff_toList_lt, Date.isoformat, Date.isoformat, String.toList_ofList,
    String.toList_ofList, Date.isoChars_lt_iff_toordinal]

/-- The other categories are compared exactly. -/
theorem validateRange_others {start stop : LiteralValue}
    (h : start.number? = none ∨ stop.number? = none) :
    Decides (validateRange ⟨start, stop⟩) (BoundsInOrder start stop) := by
  cases start with
  | integer m | float m =>
    have hstop : stop.number? = none := h.resolve_left (by rintro ⟨⟩)
    cases stop with
    | integer n | float n => cases hstop
    | _ => exact Decides.error (by rintro ⟨-, ⟨⟩, -⟩)
  | boolean b | null => cases stop <;> exact Decides.error (by rintro ⟨⟨⟩, -⟩)
  | string s =>
    cases stop with
    | string t => exact Decides.raiseIf (not_lt.trans ordered_strings.symm)
    | _ => exact Decides.error (by rintro ⟨⟨⟩, -⟩)
  | temporal a =>
    cases stop with
    | temporal b =>
      cases a with
      | keyword k => cases b <;> exact Decides.ok (BoundsInOrder.fromKeyword k _)
      | value d =>
        cases b with
        | keyword k => exact Decides.ok (BoundsInOrder.toKeyword _ k)
        | value e =>
          refine Decides.raiseIf ?_
          rw [isoformat_lt_iff, not_lt, ordered_dates]
    | _ => exact Decides.error (by rintro ⟨⟨⟩, -⟩)

theorem ordered_numbers {start stop : LiteralValue} {x y : PyFloat}
    (hstart : start.number? = some x) (hstop : stop.number? = some y) :
    BoundsInOrder start stop ↔ x ≤ y := by
  constructor
  · intro h
    cases h with
    | numbers hx hy h =>
      obtain rfl := Option.some.inj (hstart.symm.trans hx)
      obtain rfl := Option.some.inj (hstop.symm.trans hy)
      exact h
    | _ => cases hstart
  · exact .numbers hstart hstop

theorem BoundsInOrder.start_le {start stop : LiteralValue} (h : BoundsInOrder start stop) :
    ∃ l, BoundsInOrder start l ∧ BoundsInOrder l stop := by
  refine ⟨start, ?_, h⟩
  cases h with
  | numbers hstart hstop h => exact .numbers hstart hstart le_rfl
  | strings h => exact .strings le_rfl
  | dates h => exact .dates le_rfl
  | fromKeyword keyword stop => exact .fromKeyword keyword _
  | toKeyword start keyword =>
    cases start with
    | keyword k => exact .fromKeyword k _
    | value d => exact .dates le_rfl

theorem exactlyValidated_iff_decides {range : Range} :
    ExactlyValidated range ↔ Decides (validateRange range) (BoundsInOrder range.start range.stop) := by
  constructor
  · rintro ⟨haccepted, hrefused, -⟩
    have hasks : AsksForRange range
        { entity := "", where_ := some (.atom ⟨⟨"", []⟩, .comparison .eq, .range range⟩) } :=
      ⟨_, _, _, _, .inl rfl, rfl⟩
    have heq := validateIr_asksForRange hasks
    exact ⟨heq ▸ haccepted _ hasks, heq ▸ hrefused _ hasks⟩
  · rintro ⟨haccepted, hrefused⟩
    refine ⟨fun ir h => ?_, fun ir h => ?_, fun ir h hok => ?_⟩
    · rwa [validateIr_asksForRange h]
    · rwa [validateIr_asksForRange h]
    · rw [validateIr_asksForRange h] at hok
      exact (haccepted.1 hok).start_le

/-- Range validation is exact just when numeric bounds can be converted, and conversion does not
make a start equal to a smaller stop. -/
theorem exactlyValidated_iff {u : Unicode} {start stop : LiteralValue} (hstart : LexerProduces u start)
    (hstop : LexerProduces u stop) :
    ExactlyValidated ⟨start, stop⟩ ↔ ConvertedApart ⟨start, stop⟩ := by
  rw [exactlyValidated_iff_decides]
  cases hx : start.number? with
  | none =>
    refine iff_of_true (validateRange_others (.inl hx)) fun x y hx' => ?_
    cases hx.symm.trans hx'
  | some x =>
    cases hy : stop.number? with
    | none =>
      refine iff_of_true (validateRange_others (.inr hy)) fun x y _ hy' => ?_
      cases hy.symm.trans hy'
    | some y =>
      obtain ⟨message, hrange⟩ := validateRange_numbers hx hy
      rw [hrange, ordered_numbers hx hy]
      obtain ⟨hpositive, hroundStart⟩ := hstart.number hx
      obtain ⟨-, hroundStop⟩ := hstop.number hy
      have hfails : ∀ {r : Except PyError Unit} {e : PyError} {q : Prop}, r = .error e →
          e.kind = .overflowError → ¬Decides r q := by
        rintro r e q hr he ⟨-, hrefused⟩
        cases he.symm.trans (hrefused e hr)
      have hconverted : ConvertedApart ⟨start, stop⟩ ↔
          ∃ p q, floatOf start = .ok p ∧ floatOf stop = .ok q ∧ (y < x → q < p) := by
        constructor
        · exact fun h => h x y hx hy
        · intro h x' y' hx' hy'
          obtain rfl := Option.some.inj (hx.symm.trans hx')
          obtain rfl := Option.some.inj (hy.symm.trans hy')
          exact h
      rw [hconverted]
      cases hp : floatOf start with
      | error e =>
        exact iff_of_false (hfails rfl (floatOf_error hp)) (by rintro ⟨p, q, ⟨⟩, -⟩)
      | ok p =>
        cases hq : floatOf stop with
        | error e =>
          exact iff_of_false (hfails rfl (floatOf_error hq)) (by rintro ⟨p, q, -, ⟨⟩, -⟩)
        | ok q =>
          have hmono : x ≤ y → p ≤ q := fun h => by
            rw [hroundStart p hp, hroundStop q hq]
            exact PyFloat.round_mono hpositive h
          change Decides (raiseIf (q < p) (semanticError message)) (x ≤ y) ↔ _
          constructor
          · rintro ⟨haccepted, -⟩
            refine ⟨p, q, rfl, rfl, fun hlt => ?_⟩
            by_contra hle
            exact absurd (haccepted.1 (raiseIf_eq_ok.2 hle)) (not_le.2 hlt)
          · rintro ⟨p', q', hp', hq', hapart⟩
            cases hp'
            cases hq'
            refine Decides.raiseIf ⟨fun hle => ?_, fun hle => not_lt.2 (hmono hle)⟩
            by_contra hlt
            exact hle (hapart (not_le.1 hlt))

/-- A digit text is read as the integer that it stands for. -/
theorem lexerProduces_digits : LexerProduces .ascii (.integer 9007199254740993) ∧
    LexerProduces .ascii (.integer 9007199254740992) := by
  refine ⟨⟨"9007199254740993", [⟨.integer 9007199254740993, 1, 1, "9007199254740993"⟩,
    ⟨.eof, 1, 17, ""⟩], by decide, _, List.mem_cons_self, rfl⟩, ?_⟩
  exact ⟨"9007199254740992", [⟨.integer 9007199254740992, 1, 1, "9007199254740992"⟩,
    ⟨.eof, 1, 17, ""⟩], by decide, _, List.mem_cons_self, rfl⟩

/-- A descending range is accepted: its bounds are equal as floats. -/
theorem not_exactlyValidated_descending : LexerProduces .ascii (.integer 9007199254740993) ∧
    LexerProduces .ascii (.integer 9007199254740992) ∧
    ¬ ExactlyValidated ⟨.integer 9007199254740993, .integer 9007199254740992⟩ := by
  refine ⟨lexerProduces_digits.1, lexerProduces_digits.2, fun h => ?_⟩
  have haccepted : validateRange ⟨.integer 9007199254740993, .integer 9007199254740992⟩ = .ok () := by
    decide +kernel
  have hordered := (exactlyValidated_iff_decides.1 h).1.1 haccepted
  exact absurd ((ordered_numbers rfl rfl).1 hordered) (by decide +kernel)

/-- The same bounds in ascending order. -/
theorem exactlyValidated_ascending :
    ExactlyValidated ⟨.integer 9007199254740992, .integer 9007199254740993⟩ := by
  refine (exactlyValidated_iff lexerProduces_digits.2 lexerProduces_digits.1).2 fun x y hx hy => ?_
  cases hx
  cases hy
  exact ⟨(9007199254740992 : ℚ), (9007199254740992 : ℚ), by decide +kernel, by decide +kernel,
    fun h => absurd h (by decide)⟩

end AltrStream.QueryEngine
