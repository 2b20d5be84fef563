import AltrStream.Python.IsoOrder

/-! # Python's `datetime + timedelta`

A `timedelta` is a number of microseconds. The sum is the time so much later or earlier, unless it
lies outside the calendar.
-/
namespace AltrStream.Python

namespace Date

theorem valid_prevDay (d : Date) (h : 1 < d.day) : (1 ≤ d.year ∧ d.year ≤ 9999) ∧
    (1 ≤ d.month ∧ d.month ≤ 12) ∧ 1 ≤ d.day - 1 ∧ d.day - 1 ≤ daysInMonth d.year d.month := by
  obtain ⟨hyear, hmonth, -, hlast⟩ := d.valid
  exact ⟨hyear, hmonth, by omega, by omega⟩

theorem valid_prevMonth (d : Date) (h : 1 < d.month) : (1 ≤ d.year ∧ d.year ≤ 9999) ∧
    (1 ≤ d.month - 1 ∧ d.month - 1 ≤ 12) ∧ 1 ≤ daysInMonth d.year (d.month - 1) ∧
    daysInMonth d.year (d.month - 1) ≤ daysInMonth d.year (d.month - 1) := by
  obtain ⟨hyear, hmonth, -⟩ := d.valid
  refine ⟨hyear, ⟨by omega, by omega⟩, ?_, le_rfl⟩
  unfold daysInMonth
  split_ifs <;> omega

theorem valid_prevYear (d : Date) (h : 1 < d.year) : (1 ≤ d.year - 1 ∧ d.year - 1 ≤ 9999) ∧
    (1 ≤ 12 ∧ 12 ≤ 12) ∧ 1 ≤ 31 ∧ 31 ≤ daysInMonth (d.year - 1) 12 := by
  have hyear := d.valid.1
  exact ⟨⟨by omega, by omega⟩, by decide, by decide, by simp [daysInMonth]⟩

/-- The date one day earlier; there is none before 0001-01-01. -/
def prev? (d : Date) : Option Date :=
  if h : 1 < d.day then some ⟨d.year, d.month, d.day - 1, valid_prevDay d h⟩
  else if h : 1 < d.month then
    some ⟨d.year, d.month - 1, daysInMonth d.year (d.month - 1), valid_prevMonth d h⟩
  else if h : 1 < d.year then some ⟨d.year - 1, 12, 31, valid_prevYear d h⟩
  else none

/-- `0001-01-01`, the only date without a predecessor. -/
def first : Date := ⟨1, 1, 1, by decide, by decide, by decide⟩

theorem toordinal_first : first.toordinal = 1 := by decide

theorem toordinal_last : last.toordinal = 3652059 := by decide

theorem one_le_toordinal (d : Date) : 1 ≤ d.toordinal := by
  have hday := d.valid.2.2.1
  unfold toordinal
  omega

theorem toordinal_le_last (d : Date) : d.toordinal ≤ last.toordinal := by
  have hyears := @daysBeforeYear_mono (d.year + 1) 10000 (by omega) (by have := d.valid.1.2; omega)
  have hlast : daysBeforeYear 10000 = last.toordinal := by decide
  exact d.toordinal_le.trans (hyears.trans_eq hlast)

theorem toordinal_prev? {d d' : Date} (h : d.prev? = some d') : d'.toordinal + 1 = d.toordinal := by
  obtain ⟨y, m, day, ⟨hy, hy'⟩, ⟨hm, hm'⟩, hd, hd'⟩ := d
  unfold prev? at h
  simp only at h
  split_ifs at h with h₁ h₂ h₃
  · cases h
    simp only [toordinal]
    omega
  · cases h
    obtain ⟨k, rfl⟩ : ∃ k, m = k + 1 := ⟨m - 1, by omega⟩
    simp only [toordinal, Nat.add_sub_cancel, daysBeforeMonth_succ y k (by omega)]
    omega
  · cases h
    obtain ⟨k, rfl⟩ : ∃ k, y = k + 1 := ⟨y - 1, by omega⟩
    obtain rfl : m = 1 := by omega
    have hdec := daysBeforeMonth_december k
    have hjan : daysBeforeMonth (k + 1) 1 = 0 := by simp [daysBeforeMonth]
    simp only [toordinal, Nat.add_sub_cancel, daysBeforeYear_succ k (by omega), hjan]
    omega

theorem prev?_eq_none {d : Date} (h : d.prev? = none) : d = first := by
  obtain ⟨y, m, day, ⟨hy, hy'⟩, ⟨hm, hm'⟩, hd, hd'⟩ := d
  unfold prev? at h
  split_ifs at h with h₁ h₂ h₃
  simp only at h₁ h₂ h₃
  obtain rfl : day = 1 := by omega
  obtain rfl : m = 1 := by omega
  obtain rfl : y = 1 := by omega
  rfl

/-- The date `n` days later. -/
def later? : ℕ → Date → Option Date
  | 0, d => some d
  | n + 1, d => d.next?.bind (later? n)

/-- The date `n` days earlier. -/
def earlier? : ℕ → Date → Option Date
  | 0, d => some d
  | n + 1, d => d.prev?.bind (earlier? n)

theorem later?_eq_some_iff {n : ℕ} {d e : Date} :
    later? n d = some e ↔ e.toordinal = d.toordinal + n := by
  induction n generalizing d with
  | zero =>
    refine ⟨fun h => ?_, fun h => congrArg some (toordinal_injective h.symm)⟩
    cases h
    rfl
  | succ n ih =>
    cases hnext : d.next? with
    | none =>
      have hle := e.toordinal_le_last
      rw [later?, hnext, (next?_eq_none d).1 hnext]
      refine ⟨fun h => ?_, fun h => by omega⟩
      cases h
    | some d' =>
      have hd' := toordinal_next? hnext
      rw [later?, hnext, Option.bind_some, ih]
      omega

theorem earlier?_eq_some_iff {n : ℕ} {d e : Date} :
    earlier? n d = some e ↔ e.toordinal + n = d.toordinal := by
  induction n generalizing d with
  | zero =>
    refine ⟨fun h => ?_, fun h => congrArg some (toordinal_injective h.symm)⟩
    cases h
    rfl
  | succ n ih =>
    cases hprev : d.prev? with
    | none =>
      have hle := e.one_le_toordinal
      rw [earlier?, hprev, prev?_eq_none hprev, toordinal_first]
      refine ⟨fun h => ?_, fun h => by omega⟩
      cases h
    | some d' =>
      have hd' := toordinal_prev? hprev
      rw [earlier?, hprev, Option.bind_some, ih]
      omega

def addDays? (d : Date) (days : ℤ) : Option Date :=
  if 0 ≤ days then later? days.toNat d else earlier? (-days).toNat d

theorem addDays?_eq_some_iff {d e : Date} {days : ℤ} :
    d.addDays? days = some e ↔ (e.toordinal : ℤ) = d.toordinal + days := by
  unfold addDays?
  split_ifs
  · rw [later?_eq_some_iff]
    omega
  · rw [earlier?_eq_some_iff]
    omega

theorem ordinals_contiguous {n : ℤ} (hfirst : first.toordinal ≤ n) (hlast : n ≤ last.toordinal) :
    ∃ d : Date, (d.toordinal : ℤ) = n := by
  obtain ⟨k, rfl⟩ := Int.eq_ofNat_of_zero_le ((Int.natCast_nonneg _).trans hfirst)
  induction k with
  | zero => exact ⟨first, by have := toordinal_first; omega⟩
  | succ k ih =>
    by_cases hk : k + 1 = 1
    · exact ⟨first, by have := toordinal_first; omega⟩
    · have h1 := toordinal_first
      obtain ⟨d, hd⟩ := ih (by omega) (by omega)
      cases hnext : d.next? with
      | none =>
        rw [(next?_eq_none d).1 hnext] at hd
        omega
      | some d' => exact ⟨d', by have := toordinal_next? hnext; omega⟩

end Date

/-- A `timedelta` in microseconds. -/
abbrev TimeDelta := ℤ

/-- `timedelta(minutes=m)` -/
def TimeDelta.minutes (m : ℤ) : TimeDelta := m * 60000000

namespace DateTime

/-- `dt + timedelta`, with the text of its `OverflowError`. -/
def add (t : DateTime) (delta : TimeDelta) : Except String DateTime :=
  let micros : ℤ := t.micros + delta
  match t.date.addDays? (micros / dayLength) with
  | some d => .ok ⟨d, (micros % dayLength).toNat, by unfold dayLength; omega⟩
  | none => .error "date value out of range"

theorem instant_injective : Function.Injective instant := by
  rintro ⟨d, n, hn⟩ ⟨d', n', hn'⟩ h
  simp only [instant, Date.midnight] at h
  unfold dayLength at *
  have hd : d = d' := Date.toordinal_injective (by omega)
  subst hd
  obtain rfl : n = n' := by omega
  rfl

/-- The sum is the time that lies so much later. -/
theorem add_eq_ok_iff {t t' : DateTime} {delta : TimeDelta} :
    t.add delta = .ok t' ↔ (t'.instant : ℤ) = t.instant + delta := by
  obtain ⟨d, n, hn⟩ := t
  obtain ⟨d', n', hn'⟩ := t'
  have hspec := @Date.addDays?_eq_some_iff d d' ((n + delta) / (dayLength : ℕ))
  unfold add instant Date.midnight
  dsimp only
  constructor
  · intro h
    split at h
    case h_1 e he =>
      cases h
      have hdays := Date.addDays?_eq_some_iff.1 he
      unfold dayLength at *
      push_cast at *
      omega
    case h_2 => cases h
  · intro h
    have hdays : d.addDays? ((n + delta) / (dayLength : ℕ)) = some d' := by
      rw [hspec]
      unfold dayLength at *
      push_cast at *
      omega
    have hmicros : ((n + delta) % (dayLength : ℕ)).toNat = n' := by
      unfold dayLength at *
      push_cast at *
      omega
    rw [hdays]
    simp only [hmicros]

/-- The minute of the calendar that the time lies in. -/
def minute (t : DateTime) : ℕ := t.instant / 60000000

/-- The first and the last minute of the calendar. -/
def firstMinute : ℕ := 1440

def lastMinute : ℕ := 3652060 * 1440 - 1

theorem exists_instant {n : ℤ} (hfirst : (firstMinute : ℤ) ≤ n / 60000000)
    (hlast : n / 60000000 ≤ lastMinute) : ∃ t : DateTime, (t.instant : ℤ) = n := by
  unfold firstMinute at hfirst
  unfold lastMinute at hlast
  obtain ⟨d, hd⟩ := @Date.ordinals_contiguous (n / dayLength)
    (by rw [Date.toordinal_first]; unfold dayLength; omega)
    (by rw [Date.toordinal_last]; unfold dayLength; omega)
  refine ⟨⟨d, (n % dayLength).toNat, by unfold dayLength; omega⟩, ?_⟩
  unfold instant Date.midnight
  unfold dayLength at *
  push_cast
  omega

theorem minute_bounds (t : DateTime) : firstMinute ≤ t.minute ∧ t.minute ≤ lastMinute := by
  have hfirst := t.date.one_le_toordinal
  have hlast := t.date.toordinal_le_last
  have hmicros := t.valid
  rw [Date.toordinal_last] at hlast
  unfold firstMinute lastMinute minute instant Date.midnight
  unfold dayLength at *
  omega

theorem minute_add {t t' : DateTime} {m : ℤ} (h : t.add (.minutes m) = .ok t') :
    (t'.minute : ℤ) = t.minute + m := by
  have hsum := add_eq_ok_iff.1 h
  unfold TimeDelta.minutes at hsum
  unfold minute
  omega

/-- A sum of minutes is there if the calendar has such a minute. -/
theorem exists_add_minutes {t : DateTime} {m : ℤ} (hfirst : (firstMinute : ℤ) ≤ t.minute + m)
    (hlast : t.minute + m ≤ lastMinute) : ∃ t', t.add (.minutes m) = .ok t' := by
  have hdiv : ((t.instant : ℤ) + TimeDelta.minutes m) / 60000000 = t.minute + m := by
    unfold TimeDelta.minutes minute
    omega
  obtain ⟨t', ht'⟩ := @exists_instant (t.instant + TimeDelta.minutes m) (by omega) (by omega)
  exact ⟨t', add_eq_ok_iff.2 ht'⟩

/-- `dt.replace(second=0, microsecond=0)` -/
def atMinute (t : DateTime) : DateTime :=
  ⟨t.date, t.micros / 60000000 * 60000000, (Nat.div_mul_le_self ..).trans_lt t.valid⟩

@[simp] theorem minute_atMinute (t : DateTime) : t.atMinute.minute = t.minute := by
  unfold atMinute minute instant Date.midnight dayLength
  dsimp only
  omega

end DateTime

end AltrStream.Python
