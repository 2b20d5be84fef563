import AltrStream.Python.Calendar
import Mathlib.Data.Char
import Mathlib.Data.List.Lex
import Mathlib.Order.Monotone.Basic

/-! # ISO texts in the order of their dates

Numbers padded to one width stand in the order of their values, and so the texts
of dates stand in the order of the calendar. A text that goes on behind the last
character of a date comes after the date itself and before the next one.
-/
namespace AltrStream.Python

section
variable {α : Type*} [LinearOrder α] {xs ys as bs : List α}

/-- Texts that start with as many characters: what follows decides if these are equal. -/
theorem append_lt_append_iff (h : xs.length = ys.length) :
    xs ++ as < ys ++ bs ↔ xs < ys ∨ xs = ys ∧ as < bs := by
  induction xs generalizing ys with
  | nil =>
    obtain rfl : ys = [] := List.length_eq_zero_iff.1 h.symm
    simp
  | cons x xs ih =>
    cases ys with
    | nil => cases h
    | cons y ys =>
      have hrest := ih (Nat.succ.inj h)
      simp only [List.cons_append, List.cons_lt_cons_iff, hrest, List.cons.injEq]
      tauto

end

theorem digitAt_lt_iff (m n i : ℕ) : digitAt m i < digitAt n i ↔ m / 10 ^ i % 10 < n / 10 ^ i % 10 := by
  have hdigits : ∀ a, a < 10 → ∀ b, b < 10 → (Char.ofNat (48 + a) < Char.ofNat (48 + b) ↔ a < b) := by
    decide
  exact hdigits _ (Nat.mod_lt _ (by norm_num)) _ (Nat.mod_lt _ (by norm_num))

theorem digitAt_inj (m n i : ℕ) : digitAt m i = digitAt n i ↔ m / 10 ^ i % 10 = n / 10 ^ i % 10 := by
  rw [← not_iff_not, ← ne_eq, ← ne_eq, ne_iff_lt_or_gt, ne_iff_lt_or_gt,
    digitAt_lt_iff, digitAt_lt_iff]

theorem zeroPad_succ (width n : ℕ) : zeroPad (width + 1) n = digitAt n width :: zeroPad width n := by
  simp [zeroPad, List.range_succ]

@[simp] theorem length_zeroPad (width n : ℕ) : (zeroPad width n).length = width := by
  simp [zeroPad]

/-- Padded numbers in their order, as far as the digits go. -/
theorem zeroPad_lt_mod_iff (width m n : ℕ) :
    zeroPad width m < zeroPad width n ↔ m % 10 ^ width < n % 10 ^ width := by
  induction width with
  | zero => simp [zeroPad, Nat.mod_one]
  | succ width ih =>
    have hsplit : ∀ k : ℕ, k % 10 ^ (width + 1) = 10 ^ width * (k / 10 ^ width % 10) + k % 10 ^ width :=
      fun k => by rw [pow_succ, Nat.mod_mul, add_comm]
    have hpos : 0 < 10 ^ width := by positivity
    have hm := Nat.mod_lt m hpos
    have hn := Nat.mod_lt n hpos
    rw [zeroPad_succ, zeroPad_succ, List.cons_lt_cons_iff, digitAt_lt_iff, digitAt_inj, ih, hsplit,
      hsplit]
    generalize m / 10 ^ width % 10 = a
    generalize n / 10 ^ width % 10 = b
    generalize m % 10 ^ width = c at *
    generalize n % 10 ^ width = d at *
    have hstep : ∀ {x y : ℕ}, x < y → 10 ^ width * x + 10 ^ width ≤ 10 ^ width * y := fun h =>
      (Nat.mul_succ _ _).symm.trans_le (Nat.mul_le_mul_left _ h)
    rcases lt_trichotomy a b with hab | rfl | hab
    · exact iff_of_true (.inl hab) (by have := hstep hab; omega)
    · simp
    · exact iff_of_false (by omega) (by have := hstep hab; omega)

theorem zeroPad_lt_iff {width m n : ℕ} (hm : m < 10 ^ width) (hn : n < 10 ^ width) :
    zeroPad width m < zeroPad width n ↔ m < n := by
  rw [zeroPad_lt_mod_iff, Nat.mod_eq_of_lt hm, Nat.mod_eq_of_lt hn]

theorem zeroPad_inj {width m n : ℕ} (hm : m < 10 ^ width) (hn : n < 10 ^ width) :
    zeroPad width m = zeroPad width n ↔ m = n := by
  rw [← not_iff_not, ← ne_eq, ← ne_eq, ne_iff_lt_or_gt, ne_iff_lt_or_gt,
    zeroPad_lt_iff hm hn, zeroPad_lt_iff hn hm]

namespace Date

theorem day_le (d : Date) : d.day ≤ 31 := by
  refine d.valid.2.2.2.trans ?_
  unfold daysInMonth
  split_ifs <;> omega

/-- The text of a date comes first if its year does, or its month in the year, or its day. -/
theorem isoChars_lt_iff (d e : Date) : d.isoChars < e.isoChars ↔
    d.year < e.year ∨ d.year = e.year ∧
      (d.month < e.month ∨ d.month = e.month ∧ d.day < e.day) := by
  have hyear : ∀ d : Date, d.year < 10 ^ 4 := fun d => by have := d.valid.1.2; omega
  have hmonth : ∀ d : Date, d.month < 10 ^ 2 := fun d => by have := d.valid.2.1.2; omega
  have hday : ∀ d : Date, d.day < 10 ^ 2 := fun d => by have := d.day_le; omega
  unfold isoChars
  rw [append_lt_append_iff (by simp), List.cons_lt_cons_iff, append_lt_append_iff (by simp),
    List.cons_lt_cons_iff, zeroPad_lt_iff (hyear d) (hyear e), zeroPad_inj (hyear d) (hyear e),
    zeroPad_lt_iff (hmonth d) (hmonth e), zeroPad_inj (hmonth d) (hmonth e),
    zeroPad_lt_iff (hday d) (hday e)]
  simp

@[simp] theorem length_isoChars (d : Date) : d.isoChars.length = 10 := by simp [isoChars]

theorem isoChars_injective : Function.Injective isoChars := fun d e h => by
  have hd := fromisoformat_isoChars d
  rw [h, fromisoformat_isoChars] at hd
  cases hd
  rfl

theorem daysBeforeYear_mono {y y' : ℕ} (hy : 1 ≤ y) (h : y ≤ y') :
    daysBeforeYear y ≤ daysBeforeYear y' := by
  induction y', h using Nat.le_induction with
  | base => exact le_rfl
  | succ y' h ih =>
    rw [daysBeforeYear_succ y' (hy.trans h)]
    omega

theorem daysBeforeMonth_mono {y m m' : ℕ} (hm : 1 ≤ m) (h : m ≤ m') :
    daysBeforeMonth y m ≤ daysBeforeMonth y m' := by
  induction m', h using Nat.le_induction with
  | base => exact le_rfl
  | succ m' h ih =>
    rw [daysBeforeMonth_succ y m' (hm.trans h)]
    omega

/-- A date lies between the first of its month and the first of the next one. -/
theorem day_bounds (d : Date) : daysBeforeMonth d.year d.month < daysBeforeMonth d.year d.month + d.day ∧
    daysBeforeMonth d.year d.month + d.day ≤ daysBeforeMonth d.year (d.month + 1) := by
  rw [daysBeforeMonth_succ d.year d.month d.valid.2.1.1]
  have hday := d.valid.2.2
  omega

/-- A date lies before the first of the next year. -/
theorem toordinal_le (d : Date) : d.toordinal ≤ daysBeforeYear (d.year + 1) := by
  have hbounds := d.day_bounds.2
  have hmonths := @daysBeforeMonth_mono d.year (d.month + 1) 13 (by omega)
    (by have := d.valid.2.1.2; omega)
  have hdecember : daysBeforeMonth d.year 13 = daysBeforeMonth d.year 12 + daysInMonth d.year 12 :=
    daysBeforeMonth_succ d.year 12 (by norm_num)
  have hlength := daysBeforeMonth_december d.year
  have h31 : daysInMonth d.year 12 = 31 := by simp [daysInMonth]
  rw [toordinal, daysBeforeYear_succ d.year d.valid.1.1]
  omega

theorem toordinal_lt_of_isoChars_lt {d e : Date} (h : d.isoChars < e.isoChars) :
    d.toordinal < e.toordinal := by
  have hd := d.day_bounds
  have he := e.day_bounds
  rcases (isoChars_lt_iff d e).1 h with hyear | ⟨hyear, hmonth | ⟨hmonth, hday⟩⟩
  · have hle := d.toordinal_le
    have hyears := @daysBeforeYear_mono (d.year + 1) e.year (by omega) hyear
    unfold toordinal at hle ⊢
    omega
  · have hmonths := @daysBeforeMonth_mono d.year (d.month + 1) e.month (by omega) hmonth
    unfold toordinal
    rw [← hyear] at he ⊢
    omega
  · unfold toordinal
    rw [← hyear, ← hmonth]
    omega

/-- ISO texts stand in the order of the calendar. -/
theorem isoChars_lt_iff_toordinal (d e : Date) : d.isoChars < e.isoChars ↔ d.toordinal < e.toordinal := by
  refine ⟨toordinal_lt_of_isoChars_lt, fun h => ?_⟩
  rcases lt_trichotomy d.isoChars e.isoChars with hlt | heq | hgt
  · exact hlt
  · exact absurd (congrArg toordinal (isoChars_injective heq)) h.ne
  · exact absurd (toordinal_lt_of_isoChars_lt hgt) (by omega)

theorem toordinal_injective : Function.Injective toordinal := fun d e h => by
  rcases lt_trichotomy d.isoChars e.isoChars with hlt | heq | hgt
  · exact absurd h (toordinal_lt_of_isoChars_lt hlt).ne
  · exact isoChars_injective heq
  · exact absurd h (toordinal_lt_of_isoChars_lt hgt).ne'

/-- A text that starts with a date, against one that starts with a date: the dates decide, or what
follows. -/
theorem isoChars_append_lt_iff (d e : Date) (s t : List Char) :
    d.isoChars ++ s < e.isoChars ++ t ↔ d.toordinal < e.toordinal ∨ d = e ∧ s < t := by
  rw [append_lt_append_iff (by simp), isoChars_lt_iff_toordinal, isoChars_injective.eq_iff]

end Date

theorem DateTime.isoChars_ofDate (d : Date) :
    (DateTime.ofDate d).isoChars = d.isoChars ++ "T00:00:00".toList := by
  have hzero : 'T' :: (zeroPad 2 0 ++ ':' :: (zeroPad 2 0 ++ ':' :: zeroPad 2 0)) =
      "T00:00:00".toList := by decide
  rw [← hzero]
  simp [DateTime.isoChars, DateTime.ofDate]

end AltrStream.Python
