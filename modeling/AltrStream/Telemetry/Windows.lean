import AltrStream.Foundations.Checks
import AltrStream.Python.Str
import AltrStream.Python.Timedelta
import AltrStream.Telemetry.Tracker

/-! # Usage windows

`get_metrics` looks the minutes of a window up in the buckets, step by step, and the values of the
steps are the time series. The steps of a day and of a week begin so that the last one starts at
the current minute.
-/
namespace AltrStream.Telemetry
open Foundations Python

inductive Window where
  | halfHour
  | hour
  | day
  | week
  deriving DecidableEq, Repr

namespace Window

/-- The window of a request; what is none of the others is the half hour. -/
def ofText (py : Casing) (window : String) : Window :=
  let normalized := strip (py.lower window)
  if normalized = "1h" then .hour
  else if normalized = "1d" then .day
  else if normalized = "1w" then .week
  else .halfHour

def numSteps : Window → ℕ
  | .halfHour => 30
  | .hour => 60
  | .day => 24
  | .week => 7

/-- `step_delta`, in minutes. -/
def stepDelta : Window → ℕ
  | .halfHour | .hour => 1
  | .day => 60
  | .week => 1440

/-- `duration`, in minutes. -/
def duration : Window → ℕ
  | .halfHour => 30
  | .hour => 60
  | .day => 24 * 60
  | .week => 7 * 24 * 60

theorem duration_eq (w : Window) : w.duration = w.numSteps * w.stepDelta := by
  cases w <;> rfl

theorem steps_length (w : Window) :
    w.numSteps * w.stepDelta = w.stepDelta * (w.numSteps - 1) + w.stepDelta := by
  cases w <;> rfl

theorem stepDelta_pos (w : Window) : 1 ≤ w.stepDelta := by
  cases w <;> decide

end Window

/-- `dt.hour` -/
def hourOf (dt : DateTime) : ℕ := dt.micros / 3600000000

/-- `dt.minute` -/
def minuteOf (dt : DateTime) : ℕ := dt.micros / 60000000 % 60

/-- `_current_minute_key`, which is also the key of a minute that is looked up. -/
def currentMinuteKey (dt : DateTime) : Minute :=
  String.ofList (dt.date.isoChars ++ ' ' :: (zeroPad 2 (hourOf dt) ++ ':' ::
    (zeroPad 2 (minuteOf dt) ++ [':', '0', '0'])))

/-- `%b` -/
def monthNames : List String :=
  ["Jan", "Feb", "Mar", "Apr", "May", "Jun", "Jul", "Aug", "Sep", "Oct", "Nov", "Dec"]

/-- `step_dt.strftime(time_fmt)` -/
def Window.timestamp (w : Window) (dt : DateTime) : String :=
  let hour := String.ofList (zeroPad 2 (hourOf dt))
  match w with
  | .halfHour | .hour => hour ++ ":" ++ String.ofList (zeroPad 2 (minuteOf dt))
  | .day => hour ++ ":00"
  | .week => monthNames.getD (dt.date.month - 1) "" ++ " " ++ String.ofList (zeroPad 2 dt.date.day)

/-- The minutes that follow the start of a step. -/
def aggregate (step : DateTime) (minutes : ℕ) : Except String (List Minute) :=
  (List.range minutes).mapM fun m : ℕ => currentMinuteKey <$> step.add (.minutes m)

/-- The minutes that a step looks up. -/
def Window.minuteKeys (w : Window) (step : DateTime) : Except String (List Minute) :=
  match w with
  | .halfHour | .hour => .ok [currentMinuteKey step]
  | .day => aggregate step 60
  | .week => aggregate step 1440

/-- The text of a step and the minutes that it looks up. -/
structure Step where
  timestamp : String
  keys : List Minute
  deriving DecidableEq, Repr

/-- One turn of the loop. -/
def Window.step (w : Window) (startStep : DateTime) (i : ℕ) : Except String Step := do
  let stepDt ← startStep.add (.minutes (w.stepDelta * i : ℕ))
  return { timestamp := w.timestamp stepDt, keys := ← w.minuteKeys stepDt }

def Window.steps (w : Window) (now : DateTime) : Except String (List Step) := do
  let startStep ← now.atMinute.add (.minutes (-(w.stepDelta * (w.numSteps - 1) : ℕ)))
  (List.range w.numSteps).mapM (w.step startStep)

/-- The filter on a source, which an empty text is not. -/
def sourceFilter (source : Option String) : Option String := source.filter (· ≠ "")

def Usage.totals (u : Usage) (source : Option String) : Counts :=
  match sourceFilter source with
  | some s => ((u.sourceTotals.find? (·.1.1 = s)).map Prod.snd).getD {}
  | none => u.total

def Usage.activeBuckets (u : Usage) (source : Option String) : Dict Minute Counts :=
  match sourceFilter source with
  | some s => ((u.sourceMinuteBuckets.find? (·.1.1 = s)).map Prod.snd).getD []
  | none => u.minuteBuckets

/-- The value of a step. -/
def stepValue (buckets : Dict Minute Counts) (count : Counts → ℕ) (step : Step) : ℕ :=
  ((step.keys.filterMap buckets.get?).map count).sum

/-- What `get_metrics` returns, without the percentages and the rates. -/
structure Metrics where
  totalReads : ℕ
  totalWrites : ℕ
  timeWindow : Window
  timestamps : List String
  rawReads : List ℕ
  rawWrites : List ℕ
  yMax : ℕ
  deriving DecidableEq, Repr

def Usage.getMetrics (py : Casing) (u : Usage) (now : DateTime) (window : String)
    (source : Option String) : Except String Metrics := do
  let w := Window.ofText py window
  let buckets := u.activeBuckets source
  let steps ← w.steps now
  let rawReads := steps.map (stepValue buckets Counts.reads)
  let rawWrites := steps.map (stepValue buckets Counts.writes)
  return {
    totalReads := (u.totals source).reads
    totalWrites := (u.totals source).writes
    timeWindow := w
    timestamps := steps.map Step.timestamp
    rawReads := rawReads
    rawWrites := rawWrites
    yMax := max (max (rawReads.foldl max 0) (rawWrites.foldl max 0)) 10 }

/-! ### The minutes of the keys -/

theorem minute_eq (t : DateTime) :
    t.minute = t.date.toordinal * 1440 + (hourOf t * 60 + minuteOf t) := by
  have hvalid := t.valid
  unfold DateTime.minute DateTime.instant Date.midnight hourOf minuteOf
  unfold dayLength at *
  omega

theorem hour_lt (t : DateTime) : hourOf t < 24 := by
  have hvalid := t.valid
  unfold hourOf
  unfold dayLength at hvalid
  omega

theorem minuteOf_lt (t : DateTime) : minuteOf t < 60 := Nat.mod_lt _ (by norm_num)

/-- Two times have the same key if they lie in the same minute. -/
theorem currentMinuteKey_inj {t t' : DateTime} :
    currentMinuteKey t = currentMinuteKey t' ↔ t.minute = t'.minute := by
  have hours := hour_lt t
  have hours' := hour_lt t'
  have minutes := minuteOf_lt t
  have minutes' := minuteOf_lt t'
  constructor
  · intro h
    obtain ⟨hdate, hrest⟩ := List.append_inj (String.ofList_injective h) (by simp)
    obtain ⟨hhour, hrest⟩ := List.append_inj (List.cons.inj hrest).2 (by simp)
    obtain ⟨hminute, -⟩ := List.append_inj (List.cons.inj hrest).2 (by simp)
    rw [zeroPad_inj (by omega) (by omega)] at hhour hminute
    rw [minute_eq, minute_eq, Date.isoChars_injective hdate, hhour, hminute]
  · intro h
    rw [minute_eq, minute_eq] at h
    have hdate : t.date = t'.date := Date.toordinal_injective (by omega)
    have hhour : hourOf t = hourOf t' := by omega
    have hminute : minuteOf t = minuteOf t' := by omega
    unfold currentMinuteKey
    rw [hdate, hhour, hminute]

/-- The key is that of a minute of the window's duration, the current minute the last. -/
def InWindow (w : Window) (now : DateTime) (key : Minute) : Prop :=
  ∃ t : DateTime, currentMinuteKey t = key ∧ now.minute < t.minute + w.duration ∧ t.minute ≤ now.minute

theorem inWindow_currentMinuteKey {w : Window} {now t : DateTime} :
    InWindow w now (currentMinuteKey t) ↔ now.minute < t.minute + w.duration ∧ t.minute ≤ now.minute := by
  constructor
  · rintro ⟨t', hkey, h⟩
    rwa [currentMinuteKey_inj.1 hkey] at h
  · exact fun h => ⟨t, rfl, h⟩

/-! ### The minutes of the steps -/

/-- The key is that of the minute. -/
def KeyOf (key : Minute) (minute : ℕ) : Prop := ∃ t : DateTime, currentMinuteKey t = key ∧ t.minute = minute

/-- Steps that follow each other count one minute after the other. -/
theorem flatten_steps (base delta steps : ℕ) :
    ((List.range steps).map fun i => (List.range delta).map fun m => base + delta * i + m).flatten =
      List.range' base (steps * delta) := by
  induction steps with
  | zero => simp
  | succ steps ih =>
    have hlast : ((List.range delta).map fun m => base + delta * steps + m) =
        List.range' (base + steps * delta) delta := by
      rw [List.range'_eq_map_range, mul_comm]
    rw [List.range_succ, List.map_append, List.flatten_append, ih, List.map_singleton,
      List.flatten_singleton, hlast, Nat.succ_mul, List.range'_append_1]

theorem aggregate_eq_ok {step : DateTime} {minutes : ℕ} {keys : List Minute}
    (h : aggregate step minutes = .ok keys) :
    List.Forall₂ KeyOf keys ((List.range minutes).map fun m => step.minute + m) := by
  rw [List.forall₂_map_right_iff]
  refine ((mapM_eq_ok.1 h).imp fun m key hkey => ?_).flip
  obtain ⟨t, ht, rfl⟩ := map_eq_ok.1 hkey
  exact ⟨t, rfl, by have := DateTime.minute_add ht; omega⟩

/-- A step counts as many minutes as lie between it and the next. -/
theorem minuteKeys_eq_ok {w : Window} {step : DateTime} {keys : List Minute}
    (h : w.minuteKeys step = .ok keys) :
    List.Forall₂ KeyOf keys ((List.range w.stepDelta).map fun m => step.minute + m) := by
  unfold Window.minuteKeys at h
  unfold Window.stepDelta
  cases w with
  | halfHour | hour =>
    cases h
    exact .cons ⟨step, rfl, (Nat.add_zero _).symm⟩ .nil
  | day | week =>
    dsimp only at h ⊢
    exact aggregate_eq_ok h

/-- The minutes that are looked up: as many as the window lasts, from the start of the first step
on. -/
theorem steps_eq_ok {w : Window} {now : DateTime} {steps : List Step} (h : w.steps now = .ok steps) :
    ∃ base, base + w.stepDelta * (w.numSteps - 1) = now.minute ∧
      List.Forall₂ KeyOf (steps.flatMap Step.keys) (List.range' base (w.numSteps * w.stepDelta)) := by
  obtain ⟨start, hstart, hsteps⟩ := bind_eq_ok.1 h
  have hminute := DateTime.minute_add hstart
  rw [DateTime.minute_atMinute] at hminute
  refine ⟨start.minute, by omega, ?_⟩
  rw [← flatten_steps, List.flatMap_def]
  refine List.rel_flatten ?_
  rw [List.forall₂_map_right_iff, List.forall₂_map_left_iff]
  refine ((mapM_eq_ok.1 hsteps).imp fun i step hstep => ?_).flip
  obtain ⟨stepDt, hdt, hreturn⟩ := bind_eq_ok.1 hstep
  obtain ⟨keys, hkeys, heq⟩ := bind_eq_ok.1 hreturn
  obtain rfl := pure_eq_ok.1 heq
  have hdt := DateTime.minute_add hdt
  have hmin : stepDt.minute = start.minute + w.stepDelta * i := by omega
  have hcovered := minuteKeys_eq_ok hkeys
  rwa [hmin] at hcovered

/-- The steps are there if the calendar has all their minutes. -/
theorem steps_succeeds {w : Window} {now : DateTime}
    (hfirst : DateTime.firstMinute + w.stepDelta * (w.numSteps - 1) ≤ now.minute)
    (hlast : now.minute + w.stepDelta ≤ DateTime.lastMinute + 1) : ∃ steps, w.steps now = .ok steps := by
  have hbounds := now.minute_bounds
  obtain ⟨start, hstart⟩ := @DateTime.exists_add_minutes now.atMinute
    (-(w.stepDelta * (w.numSteps - 1) : ℕ)) (by rw [DateTime.minute_atMinute]; omega)
    (by rw [DateTime.minute_atMinute]; omega)
  have hminute := DateTime.minute_add hstart
  rw [DateTime.minute_atMinute] at hminute
  have hstep : ∀ i ∈ List.range w.numSteps, ∃ step, w.step start i = .ok step := by
    intro i hi
    have hle : w.stepDelta * i ≤ w.stepDelta * (w.numSteps - 1) :=
      Nat.mul_le_mul_left _ (by have := List.mem_range.1 hi; omega)
    have hpos := w.stepDelta_pos
    obtain ⟨stepDt, hdt⟩ := @DateTime.exists_add_minutes start (w.stepDelta * i : ℕ) (by omega) (by omega)
    have hdtMinute := DateTime.minute_add hdt
    have haggregate : ∀ minutes ≤ w.stepDelta, ∃ keys, aggregate stepDt minutes = .ok keys := by
      intro minutes hminutes
      refine mapM_succeeds fun m hm => ?_
      have hm := List.mem_range.1 hm
      obtain ⟨t, ht⟩ := @DateTime.exists_add_minutes stepDt m (by omega) (by omega)
      exact ⟨_, map_eq_ok.2 ⟨t, ht, rfl⟩⟩
    have hkeys : ∃ keys, w.minuteKeys stepDt = .ok keys := by
      cases w with
      | halfHour | hour => exact ⟨_, rfl⟩
      | day => exact haggregate 60 le_rfl
      | week => exact haggregate 1440 le_rfl
    obtain ⟨keys, hkeys⟩ := hkeys
    exact ⟨_, bind_eq_ok.2 ⟨stepDt, hdt, bind_eq_ok.2 ⟨keys, hkeys, rfl⟩⟩⟩
  obtain ⟨steps, hsteps⟩ := mapM_succeeds hstep
  exact ⟨steps, bind_eq_ok.2 ⟨start, hstart, hsteps⟩⟩

/-! ### What is counted -/

section
variable {keys : List Minute} {minutes : List ℕ}

theorem mem_keys_iff (h : List.Forall₂ KeyOf keys minutes) {t : DateTime} :
    currentMinuteKey t ∈ keys ↔ t.minute ∈ minutes := by
  induction h with
  | nil => simp
  | @cons key minute keys minutes hkey _ ih =>
    obtain ⟨t', rfl, rfl⟩ := hkey
    rw [List.mem_cons, List.mem_cons, currentMinuteKey_inj, ih]

theorem nodup_keys_of_minutes (h : List.Forall₂ KeyOf keys minutes) (hnodup : minutes.Nodup) :
    keys.Nodup := by
  induction h with
  | nil => exact List.nodup_nil
  | @cons key minute keys minutes hkey htail ih =>
    obtain ⟨hnot, hrest⟩ := List.nodup_cons.1 hnodup
    obtain ⟨t, rfl, rfl⟩ := hkey
    exact List.nodup_cons.2 ⟨fun hmem => hnot ((mem_keys_iff htail).1 hmem), ih hrest⟩

/-- Every key that is looked up is that of a minute. -/
theorem exists_of_mem_keys (h : List.Forall₂ KeyOf keys minutes) {key : Minute} (hmem : key ∈ keys) :
    ∃ t, currentMinuteKey t = key := by
  obtain ⟨minute, -, t, ht, -⟩ := forall₂_mem_right h.flip hmem
  exact ⟨t, ht⟩

end

open Classical in
/-- The buckets of the minutes in the window. -/
noncomputable def Window.buckets (w : Window) (now : DateTime) (buckets : Dict Minute Counts) :
    Dict Minute Counts := buckets.filter fun b => InWindow w now b.1

/-- What the time series should count: every bucket of a minute in the window, in one step and once,
and no other bucket. -/
structure CountsEachOnce (py : Casing) (u : Usage) (now : DateTime) (window : String)
    (source : Option String) (steps : List Step) (m : Metrics) : Prop where
  looked : (Window.ofText py window).steps now = .ok steps
  returned : u.getMetrics py now window source = .ok m
  reads : m.rawReads.sum =
    (((Window.ofText py window).buckets now (u.activeBuckets source)).map (·.2.reads)).sum
  writes : m.rawWrites.sum =
    (((Window.ofText py window).buckets now (u.activeBuckets source)).map (·.2.writes)).sum
  once : ∀ b ∈ u.activeBuckets source, InWindow (Window.ofText py window) now b.1 →
    (steps.flatMap Step.keys).count b.1 = 1
  others : ∀ b ∈ u.activeBuckets source, ¬ InWindow (Window.ofText py window) now b.1 →
    b.1 ∉ steps.flatMap Step.keys

/-- The steps of the window count its buckets: there is no bucket of a minute in the part of the
oldest step that they leave out, none of a future minute that they reach, and the calendar has the
minutes. With steps of one minute only the calendar is left. -/
structure Aligned (w : Window) (now : DateTime) (buckets : Dict Minute Counts) : Prop where
  begins : DateTime.firstMinute + w.stepDelta * (w.numSteps - 1) ≤ now.minute
  ends : now.minute + w.stepDelta ≤ DateTime.lastMinute + 1
  oldest : ∀ b ∈ buckets, ∀ t, currentMinuteKey t = b.1 →
    ¬ (now.minute < t.minute + w.duration ∧ t.minute + w.duration < now.minute + w.stepDelta)
  future : ∀ b ∈ buckets, ∀ t, currentMinuteKey t = b.1 →
    ¬ (now.minute < t.minute ∧ t.minute < now.minute + w.stepDelta)

/-- The sum of the time series is what was looked up in all steps. -/
theorem sum_stepValue (buckets : Dict Minute Counts) (count : Counts → ℕ) (steps : List Step) :
    (steps.map (stepValue buckets count)).sum =
      (((steps.flatMap Step.keys).filterMap buckets.get?).map count).sum := by
  induction steps with
  | nil => rfl
  | cons step steps ih =>
    rw [List.map_cons, List.sum_cons, ih, List.flatMap_cons, List.filterMap_append, List.map_append,
      List.sum_append]
    rfl

theorem Usage.Keyed.nodup_activeBuckets {u : Usage} (h : u.Keyed) (source : Option String) :
    (Dict.keys (u.activeBuckets source)).Nodup := by
  unfold Usage.activeBuckets
  split
  case h_1 s _ =>
    cases hfind : u.sourceMinuteBuckets.find? (·.1.1 = s) with
    | none => exact List.nodup_nil
    | some e => exact h.sourceBuckets e (List.mem_of_find?_eq_some hfind)
  case h_2 => exact h.buckets

section
variable {w : Window} {now : DateTime} {keys : List Minute} {base : ℕ}

theorem mem_looked_iff (hbase : base + w.stepDelta * (w.numSteps - 1) = now.minute)
    (hkeys : List.Forall₂ KeyOf keys (List.range' base (w.numSteps * w.stepDelta))) {t : DateTime} :
    currentMinuteKey t ∈ keys ↔
      now.minute + w.stepDelta ≤ t.minute + w.duration ∧ t.minute < now.minute + w.stepDelta := by
  have hsteps := w.steps_length
  rw [mem_keys_iff hkeys, List.mem_range'_1, w.duration_eq]
  omega

/-- Without a bucket where the window and the steps differ, the buckets of the window are those
that are looked up. -/
theorem Aligned.inWindow_iff {buckets : Dict Minute Counts} (h : Aligned w now buckets)
    (hbase : base + w.stepDelta * (w.numSteps - 1) = now.minute)
    (hkeys : List.Forall₂ KeyOf keys (List.range' base (w.numSteps * w.stepDelta)))
    {b : Minute × Counts} (hb : b ∈ buckets) : InWindow w now b.1 ↔ b.1 ∈ keys := by
  have hpos := w.stepDelta_pos
  by_cases hminute : ∃ t, currentMinuteKey t = b.1
  · obtain ⟨t, ht⟩ := hminute
    have holdest := h.oldest b hb t ht
    have hfuture := h.future b hb t ht
    rw [← ht, inWindow_currentMinuteKey, mem_looked_iff hbase hkeys]
    omega
  · constructor
    · rintro ⟨t, ht, -⟩
      exact absurd ⟨t, ht⟩ hminute
    · exact fun hmem => absurd (exists_of_mem_keys hkeys hmem) hminute

end

section
variable (py : Casing) (u : Usage) (now : DateTime) (window : String) (source : Option String)

theorem CountsEachOnce.aligned {steps : List Step} {m : Metrics}
    (h : CountsEachOnce py u now window source steps m) :
    Aligned (Window.ofText py window) now (u.activeBuckets source) := by
  have hpos := (Window.ofText py window).stepDelta_pos
  have hsteps := (Window.ofText py window).steps_length
  have hduration := (Window.ofText py window).duration_eq
  obtain ⟨base, hbase, hkeys⟩ := steps_eq_ok h.looked
  have hbounds : ∀ minute ∈ List.range' base ((Window.ofText py window).numSteps *
      (Window.ofText py window).stepDelta),
      DateTime.firstMinute ≤ minute ∧ minute ≤ DateTime.lastMinute := by
    intro minute hmem
    obtain ⟨key, -, t, -, rfl⟩ := forall₂_mem_right hkeys hmem
    exact t.minute_bounds
  refine ⟨?_, ?_, fun b hb t ht hminute => ?_, fun b hb t ht hminute => ?_⟩
  · have hfirst := hbounds base (List.mem_range'_1.2 (by omega))
    omega
  · have hlast := hbounds (now.minute + (Window.ofText py window).stepDelta - 1)
      (List.mem_range'_1.2 (by omega))
    omega
  · have hin : InWindow (Window.ofText py window) now b.1 := by
      rw [← ht, inWindow_currentMinuteKey]
      omega
    have hmem : b.1 ∈ steps.flatMap Step.keys := by
      refine List.count_pos_iff.1 ?_
      rw [h.once b hb hin]
      exact Nat.one_pos
    rw [← ht, mem_looked_iff hbase hkeys] at hmem
    omega
  · refine h.others b hb (fun hin => ?_) ?_
    · rw [← ht, inWindow_currentMinuteKey] at hin
      omega
    · rw [← ht, mem_looked_iff hbase hkeys]
      omega

theorem Aligned.countsEachOnce (hkeyed : u.Keyed)
    (h : Aligned (Window.ofText py window) now (u.activeBuckets source)) :
    ∃ steps m, CountsEachOnce py u now window source steps m := by
  obtain ⟨steps, hsteps⟩ := steps_succeeds h.begins h.ends
  obtain ⟨base, hbase, hkeys⟩ := steps_eq_ok hsteps
  have hnodup := nodup_keys_of_minutes hkeys List.nodup_range'
  have hbuckets : (Window.ofText py window).buckets now (u.activeBuckets source) =
      (u.activeBuckets source).filter (·.1 ∈ steps.flatMap Step.keys) := by
    refine List.filter_congr fun b hb => ?_
    rw [decide_eq_decide]
    exact h.inWindow_iff hbase hkeys hb
  have hsum : ∀ count : Counts → ℕ, (steps.map (stepValue (u.activeBuckets source) count)).sum =
      (((Window.ofText py window).buckets now (u.activeBuckets source)).map fun b => count b.2).sum := by
    intro count
    rw [sum_stepValue, Dict.sum_lookups (hkeyed.nodup_activeBuckets source) hnodup, hbuckets]
  refine ⟨steps, _, hsteps, bind_eq_ok.2 ⟨steps, hsteps, rfl⟩, hsum _, hsum _, fun b hb hin => ?_,
    fun b hb hout hmem => hout ?_⟩
  · exact List.count_eq_one_of_mem hnodup ((h.inWindow_iff hbase hkeys hb).1 hin)
  · exact (h.inWindow_iff hbase hkeys hb).2 hmem

/-- The time series counts each bucket of the window once, and no other, if the steps are aligned
with the window. -/
theorem countsEachOnce_iff (hkeyed : u.Keyed) :
    (∃ steps m, CountsEachOnce py u now window source steps m) ↔
      Aligned (Window.ofText py window) now (u.activeBuckets source) := by
  refine ⟨?_, Aligned.countsEachOnce py u now window source hkeyed⟩
  rintro ⟨steps, m, h⟩
  exact h.aligned

end

/-- Two days of traffic: thirty minutes after the oldest minute of the day's window, and now. -/
def twoMinutes : Usage where
  minuteBuckets := [("2024-03-01 12:30:00", { reads := 5 }), ("2024-03-02 12:00:00", { reads := 2 })]

def noon : DateTime := ⟨⟨2024, 3, 2, by decide, by decide, by decide⟩, 43200000000, by decide⟩

theorem keyed_twoMinutes : twoMinutes.Keyed :=
  ⟨by decide, List.nodup_nil, List.nodup_nil, by rintro _ ⟨⟩⟩

theorem countsEachOnce_iff_twoMinutes :
    ∃ steps m, CountsEachOnce Casing.ascii twoMinutes noon "30m" none steps m := by
  refine (countsEachOnce_iff Casing.ascii twoMinutes noon "30m" none keyed_twoMinutes).2 ?_
  have hwindow : Window.ofText Casing.ascii "30m" = .halfHour := by decide
  rw [hwindow]
  refine ⟨by decide, by decide, fun _ _ t _ => ?_, fun _ _ t _ => ?_⟩
  · simp only [Window.stepDelta]
    omega
  · simp only [Window.stepDelta]
    omega

/-- The day's window leaves the bucket of half past twelve out. -/
theorem not_countsEachOnce_twoMinutes :
    ¬ ∃ steps m, CountsEachOnce Casing.ascii twoMinutes noon "1d" none steps m := by
  rintro ⟨steps, m, h⟩
  have hwindow : Window.ofText Casing.ascii "1d" = .day := by decide
  have haligned := h.aligned
  rw [hwindow] at haligned
  refine haligned.oldest ("2024-03-01 12:30:00", { reads := 5 }) (by decide)
    ⟨⟨2024, 3, 1, by decide, by decide, by decide⟩, 45000000000, by decide⟩ (by decide) ?_
  decide

end AltrStream.Telemetry
