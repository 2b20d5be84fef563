import AltrStream.Python.Scalar
import Mathlib.Algebra.Order.Floor.Ring
import Mathlib.Algebra.Order.Field.Power
import Mathlib.Tactic.Linarith
import Mathlib.Tactic.Positivity
import Mathlib.Tactic.FieldSimp
import Mathlib.Tactic.NormNum

/-! # The order of rounded numbers

Rounding to binary64 keeps the order of two numbers, up to equality, and leaves a
number alone that is rounded already. Below a power of two the grid is the finer
one, and the power itself lies on both grids.
-/
namespace AltrStream.Python

/-! ### Rounding to a whole number -/

theorem le_roundHalfEven {m : ℤ} {x : ℚ} (h : (m : ℚ) ≤ x) : m ≤ roundHalfEven x := by
  have hdown : m ≤ ⌊x⌋ := Int.le_floor.2 h
  unfold roundHalfEven
  dsimp only
  split_ifs <;> omega

theorem roundHalfEven_le {m : ℤ} {x : ℚ} (h : x ≤ m) : roundHalfEven x ≤ m := by
  have hdown : ⌊x⌋ ≤ m := Int.cast_le.1 ((Int.floor_le x).trans h)
  rcases hdown.lt_or_eq with hlt | heq
  · unfold roundHalfEven
    dsimp only
    split_ifs <;> omega
  · have hx : x - ⌊x⌋ < 1 / 2 := by
      have hcast : ((⌊x⌋ : ℤ) : ℚ) = m := congrArg _ heq
      linarith
    unfold roundHalfEven
    dsimp only
    rw [if_pos hx, heq]

theorem roundHalfEven_mono {x y : ℚ} (h : x ≤ y) : roundHalfEven x ≤ roundHalfEven y := by
  rcases (Int.floor_mono h).lt_or_eq with hlt | heq
  · have hx : roundHalfEven x ≤ ⌊x⌋ + 1 := roundHalfEven_le (by exact_mod_cast (Int.lt_floor_add_one x).le)
    exact (hx.trans hlt).trans (le_roundHalfEven (Int.floor_le y))
  · unfold roundHalfEven
    dsimp only
    rw [heq]
    split_ifs <;> first | omega | linarith

@[simp] theorem roundHalfEven_intCast (m : ℤ) : roundHalfEven m = m :=
  le_antisymm (roundHalfEven_le le_rfl) (le_roundHalfEven le_rfl)

/-! ### Powers and logarithms -/

theorem powerOf_eq_zpow (base : ℕ) (e : ℤ) : powerOf base e = (base : ℚ) ^ e := by
  unfold powerOf
  split
  · next h =>
    obtain ⟨n, rfl⟩ := Int.eq_ofNat_of_zero_le h
    simp
  · next h =>
    obtain ⟨n, hn⟩ := Int.eq_ofNat_of_zero_le (show 0 ≤ -e by omega)
    obtain rfl : e = -n := by omega
    simp

section
variable {base : ℕ} (hbase : 1 < base)
include hbase

theorem powerOf_pos (e : ℤ) : 0 < powerOf base e := by
  rw [powerOf_eq_zpow]
  exact zpow_pos (by exact_mod_cast Nat.zero_lt_of_lt hbase) e

theorem powerOf_add (e f : ℤ) : powerOf base (e + f) = powerOf base e * powerOf base f := by
  have hb : (base : ℚ) ≠ 0 := by exact_mod_cast (Nat.zero_lt_of_lt hbase).ne'
  rw [powerOf_eq_zpow, powerOf_eq_zpow, powerOf_eq_zpow, zpow_add₀ hb]

theorem powerOf_lt_iff {e f : ℤ} : powerOf base e < powerOf base f ↔ e < f := by
  rw [powerOf_eq_zpow, powerOf_eq_zpow]
  exact zpow_lt_zpow_iff_right₀ (by exact_mod_cast hbase)

theorem powerOf_mono {e f : ℤ} (h : e ≤ f) : powerOf base e ≤ powerOf base f := by
  rw [powerOf_eq_zpow, powerOf_eq_zpow]
  exact zpow_le_zpow_right₀ (by exact_mod_cast hbase.le) h

/-- `logFloor` is the exponent of the power just below. -/
theorem logFloor_bounds {q : ℚ} (hq : 0 < q) :
    powerOf base (logFloor base q) ≤ q ∧ q < powerOf base (logFloor base q + 1) := by
  have hnum : q.num.natAbs ≠ 0 := Int.natAbs_ne_zero.2 (Rat.num_pos.2 hq).ne'
  have hden : (0 : ℚ) < q.den := by exact_mod_cast q.den_pos
  have hdiv : q = (q.num.natAbs : ℚ) / q.den := by
    rw [Nat.cast_natAbs, abs_of_pos (Rat.num_pos.2 hq), Rat.num_div_den]
  have hlog : ∀ n : ℕ, n ≠ 0 → powerOf base (Nat.log base n) ≤ n ∧
      (n : ℚ) < powerOf base (Nat.log base n + 1) := by
    intro n hn
    rw [powerOf_eq_zpow, powerOf_eq_zpow]
    constructor
    · exact_mod_cast Nat.pow_log_le_self base hn
    · exact_mod_cast Nat.lt_pow_succ_log_self hbase n
  obtain ⟨hnumLow, hnumHigh⟩ := hlog _ hnum
  obtain ⟨hdenLow, hdenHigh⟩ := hlog _ q.den_ne_zero
  set a := (Nat.log base q.num.natAbs : ℤ) with ha
  set c := (Nat.log base q.den : ℤ) with hc
  have habove : powerOf base (a - c - 1) ≤ q := by
    rw [hdiv, le_div_iff₀ hden]
    calc powerOf base (a - c - 1) * q.den
        ≤ powerOf base (a - c - 1) * powerOf base (c + 1) :=
          mul_le_mul_of_nonneg_left hdenHigh.le (powerOf_pos hbase _).le
      _ = powerOf base a := by rw [← powerOf_add hbase, show a - c - 1 + (c + 1) = a by omega]
      _ ≤ q.num.natAbs := hnumLow
  have hbelow : q < powerOf base (a - c + 1) := by
    rw [hdiv, div_lt_iff₀ hden]
    calc (q.num.natAbs : ℚ) < powerOf base (a + 1) := hnumHigh
      _ = powerOf base (a - c + 1) * powerOf base c := by
          rw [← powerOf_add hbase, show a - c + 1 + c = a + 1 by omega]
      _ ≤ powerOf base (a - c + 1) * q.den :=
          mul_le_mul_of_nonneg_left hdenLow (powerOf_pos hbase _).le
  unfold logFloor
  dsimp only
  rw [← ha, ← hc]
  split
  · next h => exact ⟨h, hbelow⟩
  · next h => exact ⟨habove, by simpa using h⟩

end

namespace PyFloat

/-! ### Rounding to the grid -/

/-- The exponent of the binade of a number: that of a subnormal one is fixed. -/
def binade (q : ℚ) : ℤ := max (logFloor 2 q) (-1022)

/-- The distance of neighbouring values in the binade of a number. -/
def ulp (q : ℚ) : ℚ := powerOf 2 (binade q - 52)

def nearest (q : ℚ) : ℚ := roundHalfEven (q / ulp q) * ulp q

theorem ulp_pos (q : ℚ) : 0 < ulp q := powerOf_pos one_lt_two _

theorem ofRat_eq {q : ℚ} (hq : q ≠ 0) :
    ofRat q = if powerOf 2 1024 ≤ nearest q then ⊤ else ((nearest q : ℚ) : PyFloat) := by
  rw [ofRat, if_neg hq]
  rfl

@[simp] theorem ofRat_zero : ofRat 0 = (0 : ℚ) := if_pos rfl

theorem lt_binade {q : ℚ} (hq : 0 < q) : q < powerOf 2 (binade q + 1) := by
  refine (logFloor_bounds one_lt_two hq).2.trans_le (powerOf_mono one_lt_two ?_)
  unfold binade
  omega

/-- A number that is not below a point of its grid is not rounded below it. -/
theorem le_nearest {q : ℚ} {m : ℤ} (h : m * ulp q ≤ q) : m * ulp q ≤ nearest q := by
  have hround : m ≤ roundHalfEven (q / ulp q) := le_roundHalfEven ((le_div_iff₀ (ulp_pos q)).2 h)
  exact mul_le_mul_of_nonneg_right (by exact_mod_cast hround) (ulp_pos q).le

theorem nearest_le {q : ℚ} {m : ℤ} (h : q ≤ m * ulp q) : nearest q ≤ m * ulp q := by
  have hround : roundHalfEven (q / ulp q) ≤ m := roundHalfEven_le ((div_le_iff₀ (ulp_pos q)).2 h)
  exact mul_le_mul_of_nonneg_right (by exact_mod_cast hround) (ulp_pos q).le

theorem nearest_eq_self {q : ℚ} {m : ℤ} (h : q = m * ulp q) : nearest q = q := by
  have hle := nearest_le h.le
  have hge := le_nearest h.ge
  rw [← h] at hle hge
  exact le_antisymm hle hge

/-- The powers of two from `e` on are whole multiples of that with the exponent `e`. -/
theorem powerOf_two_eq_mul {e f : ℤ} (h : e ≤ f) : ∃ m : ℤ, powerOf 2 f = m * powerOf 2 e := by
  obtain ⟨n, hn⟩ := Int.eq_ofNat_of_zero_le (show 0 ≤ f - e by omega)
  refine ⟨2 ^ n, ?_⟩
  rw [show f = (n : ℤ) + e by omega, powerOf_add one_lt_two]
  congr 1
  simp [powerOf_eq_zpow]

theorem nearest_le_binade {q : ℚ} (hq : 0 < q) : nearest q ≤ powerOf 2 (binade q + 1) := by
  obtain ⟨m, hm⟩ := @powerOf_two_eq_mul (binade q - 52) (binade q + 1) (by omega)
  rw [hm]
  exact nearest_le (hm ▸ (lt_binade hq).le)

theorem binade_le_nearest {q : ℚ} (hq : powerOf 2 (binade q) ≤ q) :
    powerOf 2 (binade q) ≤ nearest q := by
  obtain ⟨m, hm⟩ := @powerOf_two_eq_mul (binade q - 52) (binade q) (by omega)
  rw [hm] at hq ⊢
  exact le_nearest hq

theorem nearest_nonneg {q : ℚ} (hq : 0 ≤ q) : 0 ≤ nearest q := by
  have h := @le_nearest q 0 (by simpa using hq)
  simpa using h

theorem binade_mono {p q : ℚ} (hp : 0 < p) (h : p ≤ q) : binade p ≤ binade q := by
  have hlow := (logFloor_bounds one_lt_two hp).1
  have hhigh := (logFloor_bounds one_lt_two (hp.trans_le h)).2
  have hlt := (powerOf_lt_iff one_lt_two).1 ((hlow.trans h).trans_lt hhigh)
  exact max_le_max_right _ (Int.lt_add_one_iff.1 hlt)

theorem nearest_mono {p q : ℚ} (hp : 0 < p) (h : p ≤ q) : nearest p ≤ nearest q := by
  rcases (binade_mono hp h).lt_or_eq with hlt | heq
  · -- a power of two separates the binades
    have hnormal : binade q = logFloor 2 q := by
      unfold binade at hlt ⊢
      omega
    have hlow := (logFloor_bounds one_lt_two (hp.trans_le h)).1
    rw [← hnormal] at hlow
    calc nearest p ≤ powerOf 2 (binade p + 1) := nearest_le_binade hp
      _ ≤ powerOf 2 (binade q) := powerOf_mono one_lt_two hlt
      _ ≤ nearest q := binade_le_nearest hlow
  · have hulp : ulp p = ulp q := by rw [ulp, ulp, heq]
    have hround := roundHalfEven_mono (div_le_div_of_nonneg_right h (ulp_pos q).le)
    rw [nearest, nearest, hulp]
    exact mul_le_mul_of_nonneg_right (by exact_mod_cast hround) (ulp_pos q).le

/-- What is rounded already lies on its own grid: the grid of a smaller binade is the finer one,
and the next power of two is on every grid up to its own. -/
theorem nearest_nearest {q : ℚ} (hq : 0 < q) (hr : 0 < nearest q) :
    nearest (nearest q) = nearest q := by
  have hon : ∃ m : ℤ, nearest q = m * ulp (nearest q) := by
    rcases (nearest_le_binade hq).lt_or_eq with hlt | heq
    · have hle : binade (nearest q) ≤ binade q := by
        have hlog := (powerOf_lt_iff one_lt_two).1
          ((logFloor_bounds one_lt_two hr).1.trans_lt hlt)
        unfold binade at hlog ⊢
        omega
      obtain ⟨k, hk⟩ := @powerOf_two_eq_mul (binade (nearest q) - 52) (binade q - 52) (by omega)
      have hulp : ulp q = k * ulp (nearest q) := hk
      refine ⟨roundHalfEven (q / ulp q) * k, ?_⟩
      rw [Int.cast_mul, mul_assoc, ← hulp, nearest]
    · have hle : binade (nearest q) ≤ binade q + 1 := by
        have hlog := (powerOf_lt_iff one_lt_two).1
          (((logFloor_bounds one_lt_two hr).1.trans heq.le).trans_lt
            ((powerOf_lt_iff one_lt_two).2 (Int.lt_succ (binade q + 1))))
        unfold binade at hlog ⊢
        omega
      obtain ⟨k, hk⟩ := @powerOf_two_eq_mul (binade (nearest q) - 52) (binade q + 1) (by omega)
      exact ⟨k, heq.trans hk⟩
  obtain ⟨m, hm⟩ := hon
  exact nearest_eq_self hm

/-- Conversion keeps the order. -/
theorem ofRat_mono {p q : ℚ} (hp : 0 ≤ p) (h : p ≤ q) : ofRat p ≤ ofRat q := by
  rcases hp.eq_or_lt with rfl | hp
  · rcases h.eq_or_lt with rfl | hq
    · exact le_rfl
    · rw [ofRat_zero, ofRat_eq hq.ne']
      split
      · exact le_top
      · exact WithTop.coe_le_coe.2 (nearest_nonneg hq.le)
  · have hle := nearest_mono hp h
    rw [ofRat_eq hp.ne', ofRat_eq (hp.trans_le h).ne']
    split
    · next hbig => rw [if_pos (hbig.trans hle)]
    · split
      · exact le_top
      · exact WithTop.coe_le_coe.2 hle

/-- A value is converted to itself. -/
theorem ofRat_ofRat {q r : ℚ} (hq : 0 ≤ q) (h : ofRat q = (r : PyFloat)) :
    0 ≤ r ∧ ofRat r = (r : PyFloat) := by
  rcases hq.eq_or_lt with rfl | hq
  · rw [ofRat_zero] at h
    obtain rfl := WithTop.coe_injective h
    exact ⟨le_rfl, ofRat_zero⟩
  · rw [ofRat_eq hq.ne'] at h
    split at h
    · exact absurd h WithTop.top_ne_coe
    · next hsmall =>
      obtain rfl := WithTop.coe_injective h
      refine ⟨nearest_nonneg hq.le, ?_⟩
      rcases (nearest_nonneg hq.le).eq_or_lt with hzero | hpos
      · rw [← hzero, ofRat_zero]
      · rw [ofRat_eq hpos.ne', nearest_nearest hq hpos, if_neg hsmall]

/-- The binary64 value nearest to a number or to infinity. -/
def round : PyFloat → PyFloat
  | none => ⊤
  | some q => ofRat q

theorem round_mono {x y : PyFloat} (hx : 0 ≤ x) (h : x ≤ y) : round x ≤ round y := by
  cases y using WithTop.recTopCoe with
  | top => exact le_top
  | coe q =>
    cases x using WithTop.recTopCoe with
    | top => exact absurd (top_le_iff.1 h) WithTop.coe_ne_top
    | coe p => exact ofRat_mono (WithTop.coe_nonneg.1 hx) (WithTop.coe_le_coe.1 h)

theorem round_ofRat {q : ℚ} (hq : 0 ≤ q) : 0 ≤ ofRat q ∧ round (ofRat q) = ofRat q := by
  cases h : ofRat q using WithTop.recTopCoe with
  | top => exact ⟨le_top, rfl⟩
  | coe r =>
    obtain ⟨hr, hself⟩ := ofRat_ofRat hq h
    exact ⟨WithTop.coe_nonneg.2 hr, hself⟩

end PyFloat

/-- An integer without a sign is converted like the number that it is. -/
theorem floatOfInt?_eq_some {n : ℤ} (hn : 0 ≤ n) {q : ℚ} :
    floatOfInt? n = some q ↔ PyFloat.ofRat n = (q : PyFloat) := by
  obtain ⟨m, rfl⟩ := Int.eq_ofNat_of_zero_le hn
  have hcast : PyFloat.ofRat ((m : ℤ).natAbs : ℚ) = PyFloat.ofRat ((m : ℤ) : ℚ) := by
    rw [Int.natAbs_natCast, Int.cast_natCast]
  unfold floatOfInt?
  rw [← hcast]
  cases PyFloat.ofRat ((m : ℤ).natAbs : ℚ) using WithTop.recTopCoe with
  | top => exact iff_of_false (by rintro ⟨⟩) WithTop.top_ne_coe
  | coe r =>
    change some (if (m : ℤ) < 0 then -r else r) = some q ↔ _
    rw [if_neg (not_lt.2 hn), Option.some_inj, WithTop.coe_inj]

end AltrStream.Python
