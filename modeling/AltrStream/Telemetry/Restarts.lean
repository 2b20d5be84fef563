import AltrStream.Telemetry.Durability
import AltrStream.Telemetry.Windows

/-! # Restarts

A node saves its counts when it stops and reads them back when it starts: all totals, and the
minutes of the last seven days. No window is longer, so its metrics are those of a node that never
stops.
-/
namespace AltrStream.Telemetry
open Foundations Python

/-! ### Minutes in the order of their keys -/

theorem currentMinuteKey_lt_iff {t t' : DateTime} :
    currentMinuteKey t < currentMinuteKey t' ↔ t.minute < t'.minute := by
  have hours := hour_lt t
  have hours' := hour_lt t'
  have minutes := minuteOf_lt t
  have minutes' := minuteOf_lt t'
  unfold currentMinuteKey
  rw [String.lt_iff_toList_lt, String.toList_ofList, String.toList_ofList,
    Date.isoChars_append_lt_iff, List.cons_lt_cons_iff, append_lt_append_iff (by simp),
    List.cons_lt_cons_iff, append_lt_append_iff (by simp), zeroPad_lt_iff (by omega) (by omega),
    zeroPad_inj (by omega) (by omega), zeroPad_lt_iff (by omega) (by omega), minute_eq, minute_eq]
  simp only [lt_self_iff_false, false_or, true_and, and_false, or_false]
  constructor
  · rintro (hdate | ⟨hdate, htime⟩)
    · omega
    · rw [hdate]
      omega
  · intro h
    rcases lt_trichotomy t.date.toordinal t'.date.toordinal with hlt | heq | hgt
    · exact .inl hlt
    · exact .inr ⟨Date.toordinal_injective heq, by omega⟩
    · omega

theorem currentMinuteKey_le_iff {t t' : DateTime} :
    currentMinuteKey t ≤ currentMinuteKey t' ↔ t.minute ≤ t'.minute := by
  rw [← not_lt, ← not_lt, currentMinuteKey_lt_iff]

/-! ### Loading -/

/-- A time seven days ago, as the key of a minute. -/
def cutoff (now : DateTime) : Except String Minute :=
  currentMinuteKey <$> now.add (.minutes (-10080))

def RowKey.isTotal : RowKey → Bool
  | .usage _ => true
  | .log .. => false

/-- The totals are loaded, and the minutes from the cutoff on. Where the calendar has no cutoff,
`load_from_db` ends after the totals. -/
def RowKey.isLoaded (now : DateTime) : RowKey → Bool
  | .usage _ => true
  | .log _ minute => (cutoff now).toOption.any (· ≤ minute)

/-- What a row sets. -/
def Usage.loadRow (u : Usage) : RowKey × Counts → Usage
  | (.usage none, c) => { u with total := c }
  | (.usage (some s), c) => { u with sourceTotals := u.sourceTotals.set s c }
  | (.log none m, c) => { u with minuteBuckets := u.minuteBuckets.set m c }
  | (.log (some s) m, c) =>
    let buckets := ((u.sourceMinuteBuckets.get? s).getD []).set m c
    { u with sourceMinuteBuckets := u.sourceMinuteBuckets.set s buckets }

/-- `load_from_db` -/
def Usage.loadFromDb (u : Usage) (now : DateTime) (db : Db) : Usage :=
  let records := db.filter (·.1.isTotal)
  let logs := db.filter fun row => !row.1.isTotal && row.1.isLoaded now
  (records ++ logs).foldl Usage.loadRow u

section
variable {u : Usage} {row : RowKey × Counts} {rows : List (RowKey × Counts)} {k : RowKey}

theorem count_loadRow : (u.loadRow row).count k = if row.1 = k then row.2 else u.count k := by
  obtain ⟨key, c⟩ := row
  rcases key with (_ | s) | ⟨_ | s, m⟩ <;> rcases k with (_ | s') | ⟨_ | s', m'⟩ <;>
    simp only [Usage.loadRow, Usage.count, reduceCtorEq, if_false, if_true, RowKey.usage.injEq,
      RowKey.log.injEq, Option.some.injEq, Dict.get?_set, true_and, false_and]
  · split_ifs <;> rfl
  · split_ifs <;> rfl
  · by_cases hs : s = s'
    · subst hs
      simp only [if_true, Option.getD_some, Dict.get?_set, true_and]
      split_ifs <;> rfl
    · simp [hs]

theorem Usage.Keyed.loadRow (h : u.Keyed) : (u.loadRow row).Keyed := by
  obtain ⟨key, c⟩ := row
  rcases key with (_ | s) | ⟨_ | s, m⟩
  · exact ⟨h.buckets, h.totals, h.sources, h.sourceBuckets⟩
  · exact ⟨h.buckets, nodup_keys_set h.totals, h.sources, h.sourceBuckets⟩
  · exact ⟨nodup_keys_set h.buckets, h.totals, h.sources, h.sourceBuckets⟩
  · refine ⟨h.buckets, h.totals, nodup_keys_set h.sources, fun e he => ?_⟩
    rcases Dict.mem_set he with rfl | he
    · refine nodup_keys_set ?_
      cases hold : u.sourceMinuteBuckets.get? s with
      | none => exact List.nodup_nil
      | some b => exact h.sourceBuckets (s, b) (Dict.mem_of_get? hold)
    · exact h.sourceBuckets e he

theorem Usage.Keyed.loadRows (h : u.Keyed) : (rows.foldl Usage.loadRow u).Keyed := by
  induction rows generalizing u with
  | nil => exact h
  | cons row rows ih => exact ih h.loadRow

/-- Rows with different keys set what they say, and nothing else. -/
theorem count_loadRows (hnodup : (Dict.keys rows).Nodup) :
    (rows.foldl Usage.loadRow u).count k = (Dict.get? rows k).getD (u.count k) := by
  induction rows generalizing u with
  | nil => rfl
  | cons row rows ih =>
    obtain ⟨hnot, hrows⟩ := List.nodup_cons.1 hnodup
    rw [List.foldl_cons, ih hrows, count_loadRow]
    obtain ⟨key, c⟩ := row
    by_cases hk : key = k
    · subst hk
      simp [Dict.get?, Dict.get?_eq_none hnot]
    · simp [Dict.get?, hk]

end

/-- The rows that are loaded. -/
def loadedRows (now : DateTime) (db : Db) : Db := db.filter (·.1.isLoaded now)

section
variable {now : DateTime} {db db' : Db} {k : RowKey} {c : Counts}

/-- A loaded key is looked up among the loaded rows. -/
theorem selectRow_loadedRows (hk : k.isLoaded now = true) :
    selectRow (loadedRows now db) k = selectRow db k := by
  have hsame : (loadedRows now db).filter (·.1 = k) = db.filter (·.1 = k) := by
    rw [loadedRows, List.filter_filter]
    refine List.filter_congr fun row _ => ?_
    by_cases hrow : row.1 = k <;> simp [hrow, hk]
  rw [selectRow, hsame, selectRow]

theorem writeRow_loadedRows {row : (RowKey × Counts) × Bool} (hk : row.1.1.isLoaded now = true) :
    writeRow (loadedRows now db) row = (writeRow db row).map (loadedRows now) := by
  obtain ⟨⟨key, counts⟩, found⟩ := row
  have hcontains : (loadedRows now db).contains key = db.contains key := by
    rw [Dict.contains, loadedRows, Dict.get?_filter, if_pos hk, Dict.contains]
  have happend : loadedRows now (db ++ [(key, counts)]) = loadedRows now db ++ [(key, counts)] := by
    have hkept : [(key, counts)].filter (fun row => row.1.isLoaded now) = [(key, counts)] :=
      List.filter_cons_of_pos (by exact hk)
    rw [loadedRows, List.filter_append, hkept, loadedRows]
  cases found with
  | true =>
    rw [writeRow, writeRow, hcontains, loadedRows, ← Dict.filter_set hk]
    split_ifs <;> rfl
  | false =>
    cases key with
    | usage source =>
      rw [writeRow, writeRow, hcontains, ← happend]
      split_ifs <;> rfl
    | log source minute => rw [writeRow, writeRow, ← happend]; rfl

theorem commit_loadedRows {pending : List ((RowKey × Counts) × Bool)}
    (hloaded : ∀ row ∈ pending, row.1.1.isLoaded now = true) :
    commit (loadedRows now db) pending = (commit db pending).map (loadedRows now) := by
  induction pending generalizing db with
  | nil => rfl
  | cons row rows ih =>
    obtain ⟨hrow, hrows⟩ := List.forall_mem_cons.1 hloaded
    rw [commit, commit, writeRow_loadedRows hrow]
    cases writeRow db row with
    | error e => rfl
    | ok db1 => exact ih hrows

/-- The totals and then the minutes are the loaded rows. -/
theorem records_logs_perm : (db.filter (·.1.isTotal) ++
    db.filter fun row => !row.1.isTotal && row.1.isLoaded now).Perm (loadedRows now db) := by
  have hrecords : db.filter (·.1.isTotal) = (loadedRows now db).filter (·.1.isTotal) := by
    rw [loadedRows, List.filter_filter]
    refine List.filter_congr fun row _ => ?_
    obtain ⟨_ | _, _⟩ := row <;> rfl
  have hlogs : db.filter (fun row => !row.1.isTotal && row.1.isLoaded now) =
      (loadedRows now db).filter fun row => !row.1.isTotal := by
    rw [loadedRows, List.filter_filter]
  rw [hrecords, hlogs]
  exact List.filter_append_perm _ _

theorem count_empty : ({} : Usage).count k = {} := by
  rcases k with (_ | s) | ⟨_ | s, m⟩ <;> rfl

theorem keyed_loadFromDb : (({} : Usage).loadFromDb now db).Keyed := keyed_empty.loadRows

/-- What is loaded is what the loaded rows say. -/
theorem count_loadFromDb (hnodup : (Dict.keys (loadedRows now db)).Nodup) :
    (({} : Usage).loadFromDb now db).count k = ((loadedRows now db).get? k).getD {} := by
  have hperm := @records_logs_perm now db
  have hkeys := (hperm.map Prod.fst).nodup_iff.2 hnodup
  have hget : Dict.get? (db.filter (·.1.isTotal) ++
      db.filter fun row => !row.1.isTotal && row.1.isLoaded now) k = (loadedRows now db).get? k :=
    Option.ext fun c => by
      rw [Dict.get?_eq_some_iff hkeys, Dict.get?_eq_some_iff hnodup, hperm.mem_iff]
  rw [← hget, Usage.loadFromDb, count_loadRows hkeys, count_empty]

end

section
variable {started now : DateTime}

theorem cutoff_eq_ok (hbegins : DateTime.firstMinute + 10080 ≤ now.minute) :
    ∃ t, cutoff now = .ok (currentMinuteKey t) ∧ t.minute + 10080 = now.minute := by
  have hlast := now.minute_bounds.2
  have hfirst : (DateTime.firstMinute : ℤ) ≤ now.minute + -10080 := by
    have hcast : ((DateTime.firstMinute + 10080 : ℕ) : ℤ) ≤ now.minute := Int.ofNat_le.2 hbegins
    generalize DateTime.firstMinute = first at *
    omega
  obtain ⟨t, ht⟩ := @DateTime.exists_add_minutes now (-10080) hfirst (by omega)
  have hminute := DateTime.minute_add ht
  exact ⟨t, map_eq_ok.2 ⟨t, ht, rfl⟩, by omega⟩

theorem isLoaded_log_iff (hbegins : DateTime.firstMinute + 10080 ≤ now.minute)
    {source : Option SourceId} {t : DateTime} :
    (RowKey.log source (currentMinuteKey t)).isLoaded now = true ↔
      now.minute ≤ t.minute + 10080 := by
  obtain ⟨first, hcutoff, hfirst⟩ := cutoff_eq_ok hbegins
  rw [RowKey.isLoaded, hcutoff]
  simp only [Except.toOption, Option.any_some, decide_eq_true_eq, currentMinuteKey_le_iff]
  omega

/-- What a later start loads an earlier one loads too. -/
theorem isLoaded_of_le (hbegins : DateTime.firstMinute + 10080 ≤ started.minute)
    (hle : started.minute ≤ now.minute) {k : RowKey} (hk : k.isLoaded now = true) :
    k.isLoaded started = true := by
  cases k with
  | usage source => rfl
  | log source minute =>
    obtain ⟨first, hcutoff, hfirst⟩ := cutoff_eq_ok hbegins
    obtain ⟨later, hlater, hminute⟩ := @cutoff_eq_ok now (by omega)
    rw [RowKey.isLoaded, hlater] at hk
    rw [RowKey.isLoaded, hcutoff]
    simp only [Except.toOption, Option.any_some, decide_eq_true_eq] at hk ⊢
    exact (currentMinuteKey_le_iff.2 (by omega)).trans hk

end

/-! ### The node -/

/-- `save_to_db`, with no other task in between. -/
def saveToDb (u : Usage) (db : Db) : Except Unit Db := do
  commit db (← u.rows.mapM fun row => (row, ·) <$> selectRow db row.1)

/-- The node stops and starts again: the counts are saved and read back. A save that fails leaves
the database as it is. -/
def Tracker.restart (t : Tracker) (now : DateTime) : Tracker :=
  let db := (saveToDb t.usage t.db).toOption.getD t.db
  { usage := ({} : Usage).loadFromDb now db, db }

/-- What an action does to the counts. -/
def Usage.after (u : Usage) (t : Tracker) : Action → Usage
  | .record kind count minute source =>
    if count ≤ 0 then u else u.record kind count.toNat minute source
  | .clear i => if t.clears[i]? = some .resets then {} else u
  | .clearData | .save _ => u

structure Node where
  tracker : Tracker
  started : DateTime
  /-- What a node has counted that never stops. -/
  ledger : Usage
  deriving DecidableEq

inductive NodeAction where
  | act (a : Action)
  | restart (now : DateTime)
  deriving DecidableEq

def Node.step (n : Node) : NodeAction → Except Unit Node
  | .act a => (n.tracker.step a).map fun tracker =>
    { n with tracker, ledger := n.ledger.after n.tracker a }
  | .restart now => .ok { n with tracker := n.tracker.restart now, started := now }

/-- The minutes of an operation are those of a clock that has not gone back behind the start. -/
def RecordedSince (started : DateTime) : Action → Prop
  | .record _ _ minute _ => ∃ t : DateTime, minute = currentMinuteKey t ∧ started.minute ≤ t.minute
  | _ => True

/-- What may happen to the tracker, on a clock that does not go back behind the start. -/
def Node.Allowed (n : Node) : NodeAction → Prop
  | .act a => Telemetry.Allowed n.tracker a ∧ RecordedSince n.started a
  | .restart now => n.started.minute ≤ now.minute

/-- A node that starts on a database. -/
def Node.start (db : Db) (now : DateTime) : Node where
  tracker := { usage := ({} : Usage).loadFromDb now db, db }
  started := now
  ledger := ({} : Usage).loadFromDb now db

/-! ### Saving at the end -/

section
variable {u : Usage} {db : Db} {now : DateTime}

/-- A key with at most one row is looked up without an error. -/
theorem selectRow_of_nodup (hnodup : (Dict.keys db).Nodup) (key : RowKey) :
    ∃ found, selectRow db key = .ok found := by
  have hle : (db.filter (·.1 = key)).length ≤ 1 := by
    have hcount := List.nodup_iff_count_le_one.1 hnodup key
    rwa [Dict.keys, List.count, List.countP_map, List.countP_eq_length_filter] at hcount
  unfold selectRow
  split
  · exact ⟨_, rfl⟩
  · exact ⟨_, rfl⟩
  · rename_i rows hnil hone
    cases hrows : db.filter (·.1 = key) with
    | nil => exact absurd hrows hnil
    | cons row rest =>
      have hrest : rest = [] := List.length_eq_zero_iff.1 (by simpa [hrows] using hle)
      exact absurd (hrest ▸ hrows) (hone row)

theorem writeRow_succeeds {row : (RowKey × Counts) × Bool}
    (hfound : row.2 = true ↔ row.1.1 ∈ Dict.keys db) : ∃ db', writeRow db row = .ok db' := by
  obtain ⟨⟨key, counts⟩, found⟩ := row
  rw [← Dict.contains_iff] at hfound
  cases found with
  | true => exact ⟨_, if_pos (hfound.1 rfl)⟩
  | false =>
    cases key with
    | usage source => exact ⟨_, if_neg fun hcontains => by simpa using hfound.2 hcontains⟩
    | log source minute => exact ⟨_, rfl⟩

theorem commit_succeeds {pending : List ((RowKey × Counts) × Bool)}
    (hnodup : (Dict.keys (pending.map Prod.fst)).Nodup) (haccurate : Accurate db pending) :
    ∃ db', commit db pending = .ok db' := by
  induction pending generalizing db with
  | nil => exact ⟨db, rfl⟩
  | cons row rows ih =>
    obtain ⟨hnot, hrows⟩ := List.nodup_cons.1 hnodup
    obtain ⟨hrow, hothers⟩ := List.forall_mem_cons.1 haccurate
    obtain ⟨db1, hwrite⟩ := writeRow_succeeds hrow
    obtain rfl := writeRow_eq_ok hrow hwrite
    rw [commit, hwrite]
    refine ih hrows fun row' hmem => ?_
    have hne : row'.1.1 ≠ row.1.1 := fun heq =>
      hnot (heq ▸ List.mem_map_of_mem (List.mem_map_of_mem hmem))
    rw [hothers row' hmem, Dict.mem_keys_set]
    exact (or_iff_right hne).symm

/-- On a database with one row for a key the save does not fail. -/
theorem saveToDb_eq_ok (hkeyed : u.Keyed) (hnodup : (Dict.keys db).Nodup) :
    saveToDb u db = .ok (db.update u.rows) := by
  have hselect : ∀ row ∈ u.rows, ∃ found, ((row, ·) <$> selectRow db row.1) = .ok found :=
    fun row _ => map_succeeds.2 (selectRow_of_nodup hnodup row.1)
  obtain ⟨pending, hpending⟩ := mapM_succeeds hselect
  have hfound := mapM_eq_ok.1 hpending
  have hrows : pending.map Prod.fst = u.rows := by
    refine ((map_eq_of_forall₂ (f := id) hfound fun row p hp => ?_).symm).trans (List.map_id _)
    obtain ⟨found, -, rfl⟩ := map_eq_ok.1 hp
    rfl
  have haccurate : Accurate db pending := fun p hp => by
    obtain ⟨row, -, hrow⟩ := forall₂_mem_right hfound hp
    obtain ⟨found, hselect, rfl⟩ := map_eq_ok.1 hrow
    exact selectRow_eq_ok hselect
  have hkeys : (Dict.keys (pending.map Prod.fst)).Nodup := hrows ▸ hkeyed.nodup_rows
  obtain ⟨db', hcommit⟩ := commit_succeeds hkeys haccurate
  refine bind_eq_ok.2 ⟨pending, hpending, ?_⟩
  rw [hcommit, commit_eq_ok hkeys haccurate hcommit, hrows]

/-- After the save the database says what is counted, if it said nothing of other keys. -/
theorem synced_update (hkeyed : u.Keyed) (hnodup : (Dict.keys db).Nodup)
    (hcounted : ∀ k, (db.get? k).getD {} ≠ {} → u.count k ≠ {}) : Synced (db.update u.rows) u := by
  refine ⟨Dict.nodup_keys_update hnodup _, fun k => ?_⟩
  rcases getD_update_rows hkeyed db k with heq | ⟨heq, hzero⟩
  · exact heq
  · rw [heq, hzero]
    by_contra hne
    exact hcounted k hne hzero

/-- A node that counts under loaded keys saves no other rows. -/
theorem isLoaded_of_mem_rows (hkeyed : u.Keyed)
    (hinside : ∀ k, u.count k ≠ {} → k.isLoaded now = true) {row : RowKey × Counts}
    (hmem : row ∈ u.rows) : row.1.isLoaded now = true := by
  obtain ⟨key, c⟩ := row
  cases key with
  | usage source => rfl
  | log source minute =>
    refine hinside _ ?_
    rw [hkeyed.count_of_mem_rows hmem]
    simp only [Usage.rows, List.mem_append, List.mem_cons, List.mem_map, List.mem_flatMap,
      Prod.mk.injEq, reduceCtorEq, false_and, and_false, exists_false, false_or] at hmem
    rcases hmem with ⟨b, hb, -, rfl⟩ | ⟨e, -, b, hb, -, rfl⟩
    · exact (mem_nonzero.1 hb).2
    · exact (mem_nonzero.1 hb).2

theorem saveToDb_loadedRows (hloaded : ∀ row ∈ u.rows, row.1.isLoaded now = true) :
    saveToDb u (loadedRows now db) = (saveToDb u db).map (loadedRows now) := by
  have hselect : u.rows.mapM (fun row => (row, ·) <$> selectRow (loadedRows now db) row.1) =
      u.rows.mapM fun row => (row, ·) <$> selectRow db row.1 :=
    mapM_congr fun row hrow => by rw [selectRow_loadedRows (hloaded row hrow)]
  unfold saveToDb
  rw [hselect]
  cases hpending : u.rows.mapM fun row => (row, ·) <$> selectRow db row.1 with
  | error e => rfl
  | ok pending =>
    refine commit_loadedRows fun p hp => ?_
    obtain ⟨row, hrow, hfound⟩ := forall₂_mem_right (mapM_eq_ok.1 hpending) hp
    obtain ⟨found, -, rfl⟩ := map_eq_ok.1 hfound
    exact hloaded row hrow

end

/-! ### The tasks see the loaded rows -/

/-- The tracker, with the rows it has loaded. -/
def Tracker.loaded (now : DateTime) (t : Tracker) : Tracker := { t with db := loadedRows now t.db }

section
variable {t t' : Tracker} {a : Action} {i : ℕ} {started : DateTime} {k : RowKey}

/-- What a save writes has loaded keys. -/
def SavesLoaded (started : DateTime) (t : Tracker) : Prop :=
  ∀ todo pending, .saving todo pending ∈ t.saves →
    ∀ row ∈ pending.map Prod.fst ++ todo, row.1.isLoaded started = true

theorem save_loaded (hrows : SavesLoaded started t) :
    (t.loaded started).save i = (t.save i).map (Tracker.loaded started) := by
  have hsaves : (t.loaded started).saves = t.saves := rfl
  unfold Tracker.save
  rw [hsaves]
  cases hx : t.saves[i]? with
  | none => rfl
  | some s =>
    cases s with
    | sleeping => rfl
    | saved => rfl
    | saving todo pending =>
      have hloaded := hrows todo pending (List.mem_of_getElem? hx)
      cases todo with
      | nil =>
        have hpending : ∀ row ∈ pending, row.1.1.isLoaded started = true := fun row hrow =>
          hloaded row.1 (List.mem_append_left _ (List.mem_map_of_mem hrow))
        have hcommit := @commit_loadedRows started t.db pending hpending
        dsimp only
        rw [Tracker.loaded, hcommit]
        cases commit t.db pending <;> rfl
      | cons row todo =>
        have hselect := @selectRow_loadedRows started t.db row.1 (hloaded row (by simp))
        dsimp only
        rw [Tracker.loaded, hselect]
        cases selectRow t.db row.1 <;> rfl

theorem step_loaded (hrows : SavesLoaded started t) :
    (t.loaded started).step a = (t.step a).map (Tracker.loaded started) := by
  cases a with
  | record kind count minute source =>
    simp only [Tracker.step, Except.map]
    by_cases hcount : count ≤ 0
    · rw [if_pos hcount, if_pos hcount]
    · rw [if_neg hcount, if_neg hcount]
      unfold Tracker.scheduleSave Tracker.loaded
      by_cases hscheduled : t.saveScheduled = true
      · simp [hscheduled]
      · simp [hscheduled]
  | clearData => rfl
  | save i => exact save_loaded hrows
  | clear i =>
    have hclears : (t.loaded started).clears = t.clears := rfl
    simp only [Tracker.step, Tracker.clear, hclears]
    cases t.clears[i]? with
    | none => rfl
    | some c => cases c <;> rfl

/-- What a save task does leaves the counts. -/
theorem usage_of_save (h : t.save i = .ok t') : t'.usage = t.usage := by
  unfold Tracker.save at h
  split at h
  · cases h
  · exact Except.ok.inj h ▸ rfl
  · obtain ⟨found, -, hstep⟩ := bind_eq_ok.1 h
    exact Except.ok.inj hstep ▸ rfl
  · obtain ⟨db, -, hstep⟩ := bind_eq_ok.1 h
    exact Except.ok.inj hstep ▸ rfl
  · exact Except.ok.inj h ▸ rfl

theorem usage_of_clear (h : t.clear i = .ok t') : t'.usage = t.usage.after t (.clear i) := by
  unfold Tracker.clear at h
  unfold Usage.after
  split at h <;> rename_i hx
  · cases h
  · exact Except.ok.inj h ▸ by simp [hx]
  · exact Except.ok.inj h ▸ by simp [hx]
  · exact Except.ok.inj h ▸ by simp [hx]
  · exact Except.ok.inj h ▸ by simp [hx]

/-- The counts in memory follow the actions. -/
theorem usage_of_step (h : t.step a = .ok t') : t'.usage = t.usage.after t a := by
  cases a with
  | record kind count minute source =>
    obtain rfl := Except.ok.inj h
    simp only [Usage.after]
    by_cases hcount : count ≤ 0
    · rw [if_pos hcount, if_pos hcount]
    · rw [if_neg hcount, if_neg hcount, Tracker.scheduleSave]
      split_ifs <;> rfl
  | clearData => exact Except.ok.inj h ▸ rfl
  | save i => exact usage_of_save h
  | clear i => exact usage_of_clear h

/-- Where two counts agree they agree after an action. -/
theorem count_after_congr {u v : Usage} (h : u.count k = v.count k) :
    (u.after t a).count k = (v.after t a).count k := by
  cases a with
  | record kind count minute source =>
    simp only [Usage.after]
    split_ifs
    · exact h
    · by_cases htouches : touches minute source k
      · rw [count_record.1 htouches, count_record.1 htouches, h]
      · rw [count_record.2 htouches, count_record.2 htouches, h]
  | clear i =>
    simp only [Usage.after]
    split_ifs
    · rfl
    · exact h
  | clearData => exact h
  | save i => exact h

/-- Only loaded keys are counted under. -/
theorem isLoaded_of_count_after {u : Usage}
    (hbegins : DateTime.firstMinute + 10080 ≤ started.minute) (hrecorded : RecordedSince started a)
    (hinside : u.count k ≠ {} → k.isLoaded started = true)
    (hne : (u.after t a).count k ≠ {}) : k.isLoaded started = true := by
  cases a with
  | record kind count minute source =>
    simp only [Usage.after] at hne
    split_ifs at hne
    · exact hinside hne
    · by_cases htouches : touches minute source k
      · obtain ⟨now, rfl, hnow⟩ := hrecorded
        cases k with
        | usage s => rfl
        | log s m =>
          have hminute : m = currentMinuteKey now := by
            cases s with
            | none => exact htouches.symm
            | some s => exact htouches.2.symm
          rw [hminute, isLoaded_log_iff hbegins]
          omega
      · rw [count_record.2 htouches] at hne
        exact hinside hne
  | clear i =>
    simp only [Usage.after] at hne
    split_ifs at hne
    · exact absurd count_empty hne
    · exact hinside hne
  | clearData => exact hinside hne
  | save i => exact hinside hne

end

/-! ### The invariant of a node -/

structure NodeInv (n : Node) : Prop where
  begins : DateTime.firstMinute + 10080 ≤ n.started.minute
  inv : Inv (n.tracker.loaded n.started)
  inside : ∀ k, n.tracker.usage.count k ≠ {} → k.isLoaded n.started = true
  same : ∀ k, k.isLoaded n.started = true → n.tracker.usage.count k = n.ledger.count k

section
variable {n n' : Node} {now : DateTime} {db : Db} {a : Action}

theorem NodeInv.savesLoaded (h : NodeInv n) : SavesLoaded n.started n.tracker := by
  intro todo pending hmem row hrow
  obtain ⟨⟨u, hkeyed, hrows, hcount, -⟩, -⟩ := h.inv.saving todo pending hmem
  exact isLoaded_of_mem_rows hkeyed (fun k hne => h.inside k (hcount k hne)) (hrows ▸ hrow)

/-- What is loaded after a save is in step with the database. -/
theorem inv_loadFromDb (hnodup : (Dict.keys (loadedRows now db)).Nodup) :
    Inv (({ usage := ({} : Usage).loadFromDb now db, db } : Tracker).loaded now) :=
  inv_of_synced keyed_loadFromDb ⟨hnodup, fun _ => (count_loadFromDb hnodup).symm⟩

theorem isLoaded_of_count_loadFromDb (hnodup : (Dict.keys (loadedRows now db)).Nodup) {k : RowKey}
    (hne : (({} : Usage).loadFromDb now db).count k ≠ {}) : k.isLoaded now = true := by
  rw [count_loadFromDb hnodup, loadedRows, Dict.get?_filter] at hne
  by_contra hk
  rw [if_neg hk] at hne
  exact hne rfl

theorem nodeInv_start (hbegins : DateTime.firstMinute + 10080 ≤ now.minute)
    (hnodup : (Dict.keys db).Nodup) : NodeInv (Node.start db now) :=
  have hloaded : (Dict.keys (loadedRows now db)).Nodup := hnodup.sublist (List.filter_sublist.map _)
  ⟨hbegins, inv_loadFromDb hloaded, fun _ => isLoaded_of_count_loadFromDb hloaded, fun _ _ => rfl⟩

theorem nodeInv_act (h : NodeInv n) (hallowed : Telemetry.Allowed n.tracker a)
    (hrecorded : RecordedSince n.started a) (hstep : n.step (.act a) = .ok n') : NodeInv n' := by
  obtain ⟨tracker, htracker, rfl⟩ := map_eq_ok.1 hstep
  have husage := usage_of_step htracker
  have hloaded : (n.tracker.loaded n.started).step a = .ok (tracker.loaded n.started) := by
    rw [step_loaded h.savesLoaded, htracker]
    rfl
  have hallowed' : Telemetry.Allowed (n.tracker.loaded n.started) a := by
    cases a <;> exact hallowed
  refine ⟨h.begins, inv_step h.inv hallowed' hloaded, fun k hne => ?_, fun k hk => ?_⟩
  · exact isLoaded_of_count_after h.begins hrecorded (h.inside k) (husage ▸ hne)
  · have hsame := count_after_congr (t := n.tracker) (a := a) (h.same k hk)
    rwa [← husage] at hsame

/-- The save of the stop does not fail, and the database then says what was counted. -/
theorem NodeInv.saved (h : NodeInv n) : ∃ db, saveToDb n.tracker.usage n.tracker.db = .ok db ∧
    Synced (loadedRows n.started db) n.tracker.usage := by
  have hkeyed : n.tracker.usage.Keyed := h.inv.keyed
  have hrows : ∀ row ∈ n.tracker.usage.rows, row.1.isLoaded n.started = true := fun _ =>
    isLoaded_of_mem_rows hkeyed h.inside
  have hsave := saveToDb_eq_ok hkeyed h.inv.nodup
  have hmap := (saveToDb_loadedRows hrows).symm.trans hsave
  obtain ⟨db, hdb, heq⟩ := map_eq_ok.1 hmap
  exact ⟨db, hdb, heq ▸ synced_update hkeyed h.inv.nodup h.inv.counted⟩

theorem nodeInv_restart (h : NodeInv n) (hle : n.started.minute ≤ now.minute) :
    NodeInv { n with tracker := n.tracker.restart now, started := now } := by
  obtain ⟨db, hdb, hnodup, hsynced⟩ := h.saved
  have htracker : n.tracker.restart now = { usage := ({} : Usage).loadFromDb now db, db } := by
    rw [Tracker.restart, hdb]
    rfl
  have hearlier : ∀ {k : RowKey}, k.isLoaded now = true → k.isLoaded n.started = true :=
    isLoaded_of_le h.begins hle
  have hloaded : (Dict.keys (loadedRows now db)).Nodup := by
    have hsub : loadedRows now db = (loadedRows n.started db).filter (·.1.isLoaded now) := by
      rw [loadedRows, loadedRows, List.filter_filter]
      refine List.filter_congr fun row _ => ?_
      cases hrow : row.1.isLoaded now with
      | false => rfl
      | true => rw [hearlier hrow, Bool.and_self]
    rw [hsub]
    exact hnodup.sublist (List.filter_sublist.map _)
  rw [htracker]
  refine ⟨h.begins.trans hle, inv_loadFromDb hloaded, fun _ => isLoaded_of_count_loadFromDb hloaded,
    fun k hk => ?_⟩
  have hbefore := hsynced k
  rw [loadedRows, Dict.get?_filter, if_pos (hearlier hk)] at hbefore
  dsimp only
  rw [count_loadFromDb hloaded, loadedRows, Dict.get?_filter, if_pos hk, hbefore,
    h.same k (hearlier hk)]

theorem nodeInv_step {action : NodeAction} (h : NodeInv n) (hallowed : n.Allowed action)
    (hstep : n.step action = .ok n') : NodeInv n' := by
  cases action with
  | act a => exact nodeInv_act h hallowed.1 hallowed.2 hstep
  | restart now => exact Except.ok.inj hstep ▸ nodeInv_restart h hallowed

end

/-! ### The metrics -/

/-- What is found under the text of a source. -/
theorem find_source {ν : Type} (d : Dict SourceId ν) (s : String) :
    (d.find? (·.1.1 = s)).map Prod.snd =
      if h : s ≠ "" ∧ s ≠ "global_usage" ∧ s ≠ "_global" then d.get? ⟨s, h⟩ else none := by
  induction d with
  | nil => split <;> rfl
  | cons e d ih =>
    obtain ⟨⟨name, hname⟩, x⟩ := e
    rw [List.find?_cons]
    by_cases hs : name = s
    · subst hs
      simp [Dict.get?, hname]
    · simp only [hs, decide_false, ih, Dict.get?, Subtype.mk.injEq, if_false]

section
variable {u v : Usage} {source : Option String} {m : Minute}

theorem totals_congr (h : ∀ s, u.count (.usage s) = v.count (.usage s)) :
    u.totals source = v.totals source := by
  unfold Usage.totals
  cases sourceFilter source with
  | none => exact h none
  | some s =>
    dsimp only
    rw [find_source, find_source]
    split
    · exact h (some _)
    · rfl

theorem activeBuckets_congr (h : ∀ s, u.count (.log s m) = v.count (.log s m)) :
    ((u.activeBuckets source).get? m).getD {} = ((v.activeBuckets source).get? m).getD {} := by
  unfold Usage.activeBuckets
  cases sourceFilter source with
  | none => exact h none
  | some s =>
    dsimp only
    rw [find_source, find_source]
    split
    · exact h (some _)
    · rfl

/-- A missing bucket counts as an empty one. -/
theorem stepValue_eq (buckets : Dict Minute Counts) {count : Counts → ℕ} (hzero : count {} = 0)
    (step : Step) : stepValue buckets count step =
      (step.keys.map fun key => count ((buckets.get? key).getD {})).sum := by
  unfold stepValue
  induction step.keys with
  | nil => rfl
  | cons key keys ih =>
    rw [List.filterMap_cons, List.map_cons, List.sum_cons, ← ih]
    cases buckets.get? key with
    | none => simp [hzero]
    | some c => rfl

end

section
variable {w : Window} {started now : DateTime} {steps : List Step}

/-- No window reaches behind the minutes that are loaded. -/
theorem isLoaded_of_mem_steps (hbegins : DateTime.firstMinute + 10080 ≤ started.minute)
    (hle : started.minute ≤ now.minute) (hsteps : w.steps now = .ok steps) {step : Step}
    (hstep : step ∈ steps) {key : Minute} (hkey : key ∈ step.keys) (source : Option SourceId) :
    (RowKey.log source key).isLoaded started = true := by
  obtain ⟨base, hbase, hkeys⟩ := steps_eq_ok hsteps
  have hlength : w.stepDelta * (w.numSteps - 1) ≤ 10080 := by cases w <;> decide
  have hmem := List.mem_flatMap.2 ⟨step, hstep, hkey⟩
  obtain ⟨minute, hminute, t, rfl, rfl⟩ := forall₂_mem_right hkeys.flip hmem
  rw [isLoaded_log_iff hbegins]
  have hfirst := (List.mem_range'_1.1 hminute).1
  omega

/-- Metrics are the same if the loaded counts are. -/
theorem getMetrics_congr {u v : Usage} (hbegins : DateTime.firstMinute + 10080 ≤ started.minute)
    (hle : started.minute ≤ now.minute)
    (hsame : ∀ k, k.isLoaded started = true → u.count k = v.count k) (py : Casing) (window : String)
    (source : Option String) :
    u.getMetrics py now window source = v.getMetrics py now window source := by
  have htotals : u.totals source = v.totals source := totals_congr fun _ => hsame _ rfl
  unfold Usage.getMetrics
  dsimp only
  cases hsteps : (Window.ofText py window).steps now with
  | error e => rfl
  | ok steps =>
    have hvalues : ∀ count : Counts → ℕ, count {} = 0 →
        steps.map (stepValue (u.activeBuckets source) count) =
          steps.map (stepValue (v.activeBuckets source) count) := by
      intro count hzero
      refine List.map_congr_left fun step hstep => ?_
      rw [stepValue_eq _ hzero, stepValue_eq _ hzero]
      refine congrArg List.sum (List.map_congr_left fun key hkey => congrArg count ?_)
      exact activeBuckets_congr fun s =>
        hsame _ (isLoaded_of_mem_steps hbegins hle hsteps hstep hkey s)
    have hreads := hvalues Counts.reads rfl
    have hwrites := hvalues Counts.writes rfl
    refine congrArg Except.ok ?_
    rw [htotals, hreads, hwrites]

end

theorem newYear_valid : (1 ≤ 2026 ∧ 2026 ≤ 9999) ∧ (1 ≤ 1 ∧ 1 ≤ 12) ∧
    (1 ≤ 1 ∧ 1 ≤ daysInMonth 2026 1) := by decide

def newYear : DateTime := ⟨⟨2026, 1, 1, newYear_valid⟩, 1000000, by decide⟩

/-- A read, two stretches of its save, a restart that ends the save and another read. -/
def readTwice : List NodeAction :=
  [.act oneRead, .act (.save 0), .act (.save 0), .restart newYear, .act oneRead]

def twiceRead : Node := readTwice.foldl (attempt Node.step) (Node.start [] newYear)

theorem recorded_oneRead : RecordedSince newYear oneRead := ⟨newYear, by decide, le_rfl⟩

theorem reached_twiceRead : Reached Node.step Node.Allowed (Node.start [] newYear) twiceRead := by
  have hact : ∀ {n : Node} (a : Action), Reached Node.step Node.Allowed (Node.start [] newYear) n →
      Telemetry.Allowed n.tracker a → RecordedSince n.started a →
        Reached Node.step Node.Allowed (Node.start [] newYear) (attempt Node.step n (.act a)) :=
    fun a hrun hallowed hrecorded => .step (NodeAction.act a) hrun ⟨hallowed, hrecorded⟩
  have hread := hact oneRead .start (by decide) recorded_oneRead
  have hsaves := hact (.save 0) (hact (.save 0) hread (by decide) trivial) (by decide) trivial
  have hrestart := hsaves.step (NodeAction.restart newYear) (le_refl newYear.minute)
  exact hact oneRead hrestart (by decide) recorded_oneRead

end AltrStream.Telemetry
