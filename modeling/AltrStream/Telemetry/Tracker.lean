import AltrStream.Foundations.Dict
import Mathlib.Data.Int.Notation
import Mathlib.Data.Nat.Notation
import Mathlib.Data.List.Nodup

/-! # The usage tracker

Operations are counted in memory, and a delayed task saves a snapshot of the counts to the
database. The tasks of one event loop take turns at their awaits.
-/
namespace AltrStream.Telemetry
open Foundations

structure Counts where
  reads : ℕ := 0
  writes : ℕ := 0
  deriving DecidableEq, Repr

inductive Kind where
  | read
  | write
  deriving DecidableEq, Repr

def Counts.add (c : Counts) : Kind → ℕ → Counts
  | .read, n => { c with reads := c.reads + n }
  | .write, n => { c with writes := c.writes + n }

/-- The identifier of a source: not one of the names that stand for the whole node. -/
abbrev SourceId := { s : String // s ≠ "" ∧ s ≠ "global_usage" ∧ s ≠ "_global" }

/-- `YYYY-MM-DD HH:MM:00` -/
abbrev Minute := String

/-- What the tracker holds in memory. -/
structure Usage where
  total : Counts := {}
  minuteBuckets : Dict Minute Counts := []
  sourceTotals : Dict SourceId Counts := []
  sourceMinuteBuckets : Dict SourceId (Dict Minute Counts) := []
  deriving DecidableEq, Repr

/-- `setdefault`, and the count of the entry grows. -/
def bump {κ : Type} [DecidableEq κ] (d : Dict κ Counts) (k : κ) (kind : Kind) (n : ℕ) : Dict κ Counts :=
  d.set k (((d.get? k).getD {}).add kind n)

/-- The body of `record_read` and of `record_write`. -/
def Usage.record (u : Usage) (kind : Kind) (n : ℕ) (minute : Minute) (source : Option SourceId) : Usage :=
  { total := u.total.add kind n
    minuteBuckets := bump u.minuteBuckets minute kind n
    sourceTotals := source.elim u.sourceTotals fun s => bump u.sourceTotals s kind n
    sourceMinuteBuckets := source.elim u.sourceMinuteBuckets fun s =>
      u.sourceMinuteBuckets.set s (bump ((u.sourceMinuteBuckets.get? s).getD []) minute kind n) }

/-! ### The database -/

/-- A row of `node_usage` or of `node_usage_logs`; the rows of the node have no source. -/
inductive RowKey where
  | usage (source : Option SourceId)
  | log (source : Option SourceId) (minute : Minute)
  deriving DecidableEq, Repr

abbrev Db := Dict RowKey Counts

def nonzero (buckets : Dict Minute Counts) : Dict Minute Counts :=
  buckets.filter fun b => 0 < b.2.reads || 0 < b.2.writes

/-- The rows of a snapshot: the totals, then the buckets that are not zero. -/
def Usage.rows (u : Usage) : List (RowKey × Counts) :=
  (.usage none, u.total) :: u.sourceTotals.map (fun e => (.usage (some e.1), e.2)) ++
    (nonzero u.minuteBuckets).map (fun b => (.log none b.1, b.2)) ++
    u.sourceMinuteBuckets.flatMap fun e => (nonzero e.2).map fun b => (.log (some e.1) b.1, b.2)

/-- Whether a `SELECT` finds the row; several rows are an error. -/
def selectRow (db : Db) (key : RowKey) : Except Unit Bool :=
  match db.filter (·.1 = key) with
  | [] => .ok false
  | [_] => .ok true
  | _ => .error ()

/-- The `UPDATE` of a row that was found, or the `INSERT` of a new one. Only `node_usage` has a
key that rules out a second row. -/
def writeRow (db : Db) (row : (RowKey × Counts) × Bool) : Except Unit Db :=
  match row with
  | ((key, counts), true) => if db.contains key then .ok (db.set key counts) else .error ()
  | ((.usage source, counts), false) =>
    if db.contains (.usage source) then .error () else .ok (db ++ [(.usage source, counts)])
  | ((.log source minute, counts), false) => .ok (db ++ [(.log source minute, counts)])

/-- `commit`: what the session has collected is written. -/
def commit (db : Db) : List ((RowKey × Counts) × Bool) → Except Unit Db
  | [] => .ok db
  | row :: rows => (writeRow db row).bind (commit · rows)

/-! ### The tasks -/

/-- Where a save task is. -/
inductive Save where
  | sleeping
  /-- The rows of the snapshot that are still to be looked up, and those that were. -/
  | saving (todo : List (RowKey × Counts)) (pending : List ((RowKey × Counts) × Bool))
  /-- The session has committed; the flag is not reset yet. -/
  | saved
  deriving DecidableEq, Repr

/-- Where a call of `clear_data` is; what it deletes is gone when it commits. -/
inductive Clear where
  | deletesUsage
  | deletesLogs
  | commits
  | resets
  deriving DecidableEq, Repr

structure Tracker where
  usage : Usage := {}
  saveScheduled : Bool := false
  db : Db := []
  saves : List Save := []
  clears : List Clear := []
  deriving DecidableEq, Repr

inductive Action where
  /-- `record_read` or `record_write` in a minute. -/
  | record (kind : Kind) (count : ℤ) (minute : Minute) (source : Option SourceId)
  | clearData
  /-- A save task runs up to its next await. -/
  | save (i : ℕ)
  | clear (i : ℕ)
  deriving DecidableEq, Repr

/-- `_schedule_save` -/
def Tracker.scheduleSave (t : Tracker) : Tracker :=
  if t.saveScheduled then t else { t with saveScheduled := true, saves := t.saves ++ [.sleeping] }

/-- The next stretch of `_async_save_wrapper`; an operation of the database that fails is an error. -/
def Tracker.save (t : Tracker) (i : ℕ) : Except Unit Tracker :=
  match t.saves[i]? with
  | none => .error ()
  | some .sleeping => .ok { t with saves := t.saves.set i (.saving t.usage.rows []) }
  | some (.saving (row :: todo) pending) =>
    (selectRow t.db row.1).bind fun found =>
      .ok { t with saves := t.saves.set i (.saving todo (pending ++ [(row, found)])) }
  | some (.saving [] pending) =>
    (commit t.db pending).bind fun db => .ok { t with db, saves := t.saves.set i .saved }
  | some .saved => .ok { t with saves := t.saves.eraseIdx i, saveScheduled := false }

/-- The next stretch of `clear_data`. -/
def Tracker.clear (t : Tracker) (i : ℕ) : Except Unit Tracker :=
  match t.clears[i]? with
  | none => .error ()
  | some .deletesUsage => .ok { t with clears := t.clears.set i .deletesLogs }
  | some .deletesLogs => .ok { t with clears := t.clears.set i .commits }
  | some .commits => .ok { t with db := [], clears := t.clears.set i .resets }
  | some .resets => .ok { t with usage := {}, saveScheduled := false, clears := t.clears.eraseIdx i }

def Tracker.step (t : Tracker) : Action → Except Unit Tracker
  | .record kind count minute source =>
    .ok (if count ≤ 0 then t
      else { t with usage := t.usage.record kind count.toNat minute source }.scheduleSave)
  | .clearData => .ok { t with clears := t.clears ++ [.deletesUsage] }
  | .save i => t.save i
  | .clear i => t.clear i

/-! ## Snapshots

What is counted under the key of a row, and that the rows of a snapshot say just that.
-/

/-- What is counted in memory under the key of a row. -/
def Usage.count (u : Usage) : RowKey → Counts
  | .usage none => u.total
  | .usage (some s) => (u.sourceTotals.get? s).getD {}
  | .log none m => (u.minuteBuckets.get? m).getD {}
  | .log (some s) m => (((u.sourceMinuteBuckets.get? s).getD []).get? m).getD {}

/-- No dictionary has a key twice. -/
structure Usage.Keyed (u : Usage) : Prop where
  buckets : (Dict.keys u.minuteBuckets).Nodup
  totals : (Dict.keys u.sourceTotals).Nodup
  sources : (Dict.keys u.sourceMinuteBuckets).Nodup
  sourceBuckets : ∀ e ∈ u.sourceMinuteBuckets, (Dict.keys e.2).Nodup

theorem keyed_empty : ({} : Usage).Keyed :=
  ⟨List.nodup_nil, List.nodup_nil, List.nodup_nil, nofun⟩

theorem Counts.add_ne {c : Counts} {kind : Kind} {n : ℕ} (h : c ≠ {}) : c.add kind n ≠ {} := by
  obtain ⟨reads, writes⟩ := c
  cases kind <;> simp only [Counts.add, ne_eq, Counts.mk.injEq] at h ⊢ <;> omega

section
variable {κ : Type} [DecidableEq κ] {d : Dict κ Counts} {k k' : κ} {kind : Kind} {n : ℕ}

theorem nodup_keys_set {ν : Type} {d : Dict κ ν} {v : ν} (h : (Dict.keys d).Nodup) :
    (Dict.keys (d.set k v)).Nodup := Dict.nodup_keys_update h [(k, v)]

theorem get?_bump : ((bump d k kind n).get? k').getD {} =
    if k = k' then ((d.get? k').getD {}).add kind n else (d.get? k').getD {} := by
  rw [bump, Dict.get?_set]
  split_ifs with h
  · rw [h]
    rfl
  · rfl

end

/-- The operation is counted under the key. -/
def touches (minute : Minute) (source : Option SourceId) : RowKey → Prop
  | .usage none => True
  | .usage (some s) => source = some s
  | .log none m => minute = m
  | .log (some s) m => source = some s ∧ minute = m

section
variable {u : Usage} {kind : Kind} {n : ℕ} {minute : Minute} {source : Option SourceId} {k : RowKey}

/-- A recorded operation is counted where it should be and nowhere else. -/
theorem count_record :
    (touches minute source k → (u.record kind n minute source).count k = (u.count k).add kind n) ∧
    (¬ touches minute source k → (u.record kind n minute source).count k = u.count k) := by
  cases k with
  | usage s =>
    cases s with
    | none => exact ⟨fun _ => rfl, fun h => absurd trivial h⟩
    | some s =>
      cases source with
      | none => exact ⟨by rintro ⟨⟩, fun _ => rfl⟩
      | some s' =>
        simp only [touches, Option.some.injEq, Usage.count, Usage.record, Option.elim_some, get?_bump]
        exact ⟨fun h => if_pos h, fun h => if_neg h⟩
  | log s m =>
    cases s with
    | none =>
      simp only [touches, Usage.count, Usage.record, get?_bump]
      exact ⟨fun h => if_pos h, fun h => if_neg h⟩
    | some s =>
      cases source with
      | none => exact ⟨by rintro ⟨⟨⟩, -⟩, fun _ => rfl⟩
      | some s' =>
        simp only [touches, Option.some.injEq, Usage.count, Usage.record, Option.elim_some, Dict.get?_set]
        by_cases hs : s' = s
        · subst hs
          simp only [if_true, Option.getD_some, get?_bump, true_and]
          exact ⟨fun h => if_pos h, fun h => if_neg h⟩
        · simp [hs]

theorem count_record_ne (h : u.count k ≠ {}) : (u.record kind n minute source).count k ≠ {} := by
  by_cases htouches : touches minute source k
  · rw [count_record.1 htouches]
    exact Counts.add_ne h
  · rwa [count_record.2 htouches]

theorem Usage.Keyed.record (h : u.Keyed) : (u.record kind n minute source).Keyed := by
  refine ⟨nodup_keys_set h.buckets, ?_, ?_, ?_⟩
  · cases source with
    | none => exact h.totals
    | some s => exact nodup_keys_set h.totals
  · cases source with
    | none => exact h.sources
    | some s => exact nodup_keys_set h.sources
  · cases source with
    | none => exact h.sourceBuckets
    | some s =>
      intro e he
      have hget := (Dict.get?_eq_some_iff (nodup_keys_set h.sources)).2 he
      rw [Dict.get?_set] at hget
      split_ifs at hget with hs
      · rw [← Option.some.inj hget]
        refine nodup_keys_set ?_
        cases hold : u.sourceMinuteBuckets.get? s with
        | none => exact List.nodup_nil
        | some b => exact h.sourceBuckets (s, b) ((Dict.get?_eq_some_iff h.sources).1 hold)
      · exact h.sourceBuckets e ((Dict.get?_eq_some_iff h.sources).1 hget)

end

/-! ### The rows of a snapshot -/

theorem mem_nonzero {buckets : Dict Minute Counts} {b : Minute × Counts} :
    b ∈ nonzero buckets ↔ b ∈ buckets ∧ b.2 ≠ {} := by
  obtain ⟨m, reads, writes⟩ := b
  simp only [nonzero, List.mem_filter, Bool.or_eq_true, decide_eq_true_eq, ne_eq, Counts.mk.injEq]
  exact and_congr_right fun _ => by omega

theorem getD_eq_of_mem {κ : Type} [DecidableEq κ] {d : Dict κ Counts} (h : (Dict.keys d).Nodup) {k : κ}
    {c : Counts} (hmem : (k, c) ∈ d) : (d.get? k).getD {} = c := by
  rw [(Dict.get?_eq_some_iff h).2 hmem, Option.getD_some]

theorem mem_of_getD_ne {κ : Type} [DecidableEq κ] {d : Dict κ Counts} (h : (Dict.keys d).Nodup) {k : κ}
    (hne : (d.get? k).getD {} ≠ {}) : (k, (d.get? k).getD {}) ∈ d := by
  cases hget : d.get? k with
  | none => simp [hget] at hne
  | some c => exact (Dict.get?_eq_some_iff h).1 hget

section
variable {u : Usage}

/-- A row says what is counted under its key. -/
theorem Usage.Keyed.count_of_mem_rows (h : u.Keyed) {k : RowKey} {c : Counts} (hmem : (k, c) ∈ u.rows) :
    u.count k = c := by
  simp only [Usage.rows, List.mem_append, List.mem_cons, List.mem_map, List.mem_flatMap, Prod.mk.injEq] at hmem
  rcases hmem with ((⟨rfl, rfl⟩ | ⟨e, he, rfl, rfl⟩) | ⟨b, hb, rfl, rfl⟩) | ⟨e, he, b, hb, rfl, rfl⟩
  · rfl
  · exact getD_eq_of_mem h.totals he
  · exact getD_eq_of_mem h.buckets (mem_nonzero.1 hb).1
  · rw [Usage.count, (Dict.get?_eq_some_iff h.sources).2 he]
    exact getD_eq_of_mem (h.sourceBuckets e he) (mem_nonzero.1 hb).1

/-- What is not zero has a row. -/
theorem Usage.Keyed.mem_rows_of_count (h : u.Keyed) {k : RowKey} (hne : u.count k ≠ {}) :
    (k, u.count k) ∈ u.rows := by
  simp only [Usage.rows, List.mem_append, List.mem_cons, List.mem_map, List.mem_flatMap, Prod.mk.injEq]
  cases k with
  | usage s =>
    cases s with
    | none => exact .inl (.inl (.inl ⟨rfl, rfl⟩))
    | some s => exact .inl (.inl (.inr ⟨(s, _), mem_of_getD_ne h.totals hne, rfl, rfl⟩))
  | log s m =>
    cases s with
    | none => exact .inl (.inr ⟨(m, _), mem_nonzero.2 ⟨mem_of_getD_ne h.buckets hne, hne⟩, rfl, rfl⟩)
    | some s =>
      have hcount : u.count (.log (some s) m) = (((u.sourceMinuteBuckets.get? s).getD []).get? m).getD {} := rfl
      rw [hcount] at hne ⊢
      cases hget : u.sourceMinuteBuckets.get? s with
      | none => simp [hget] at hne
      | some b =>
        rw [hget, Option.getD_some] at hne
        simp only [Option.getD_some]
        have hb := (Dict.get?_eq_some_iff h.sources).1 hget
        exact .inr ⟨(s, b), hb, (m, _), mem_nonzero.2
          ⟨mem_of_getD_ne (h.sourceBuckets _ hb) hne, hne⟩, rfl, rfl⟩

theorem nodup_keys_nonzero {buckets : Dict Minute Counts} (h : (Dict.keys buckets).Nodup) :
    (Dict.keys (nonzero buckets)).Nodup := h.sublist (List.filter_sublist.map _)

theorem Usage.Keyed.nodup_rows (h : u.Keyed) : (Dict.keys u.rows).Nodup := by
  have htotals : (u.sourceTotals.map fun e => RowKey.usage (some e.1)).Nodup := by
    have hinj : Function.Injective fun s : SourceId => RowKey.usage (some s) := fun s s' heq => by
      simpa using heq
    have hmap := List.Nodup.map hinj h.totals
    rwa [Dict.keys, List.map_map] at hmap
  have hbuckets : ∀ (s : Option SourceId) {d : Dict Minute Counts}, (Dict.keys d).Nodup →
      ((nonzero d).map fun b => RowKey.log s b.1).Nodup := by
    intro s d hd
    have hinj : Function.Injective fun m : Minute => RowKey.log s m := fun m m' heq => by simpa using heq
    have hmap := List.Nodup.map hinj (nodup_keys_nonzero hd)
    rwa [Dict.keys, List.map_map] at hmap
  have hsources : (u.sourceMinuteBuckets.flatMap fun e =>
      (nonzero e.2).map fun b => RowKey.log (some e.1) b.1).Nodup := by
    refine List.nodup_flatMap.2 ⟨fun e he => hbuckets (some e.1) (h.sourceBuckets e he), ?_⟩
    refine (List.pairwise_map.1 h.sources).imp fun hne k hk hk' => ?_
    obtain ⟨b, -, rfl⟩ := List.mem_map.1 hk
    obtain ⟨b', -, heq⟩ := List.mem_map.1 hk'
    simp only [RowKey.log.injEq, Option.some.injEq] at heq
    exact hne heq.1.symm
  have hkeys : Dict.keys u.rows = .usage none :: (u.sourceTotals.map fun e => RowKey.usage (some e.1)) ++
      ((nonzero u.minuteBuckets).map fun b => RowKey.log none b.1) ++
      u.sourceMinuteBuckets.flatMap fun e => (nonzero e.2).map fun b => RowKey.log (some e.1) b.1 := by
    simp [Dict.keys, Usage.rows, List.map_flatMap, Function.comp_def]
  rw [hkeys]
  refine List.nodup_append.2 ⟨List.nodup_append.2 ⟨List.nodup_cons.2 ⟨?_, htotals⟩,
    hbuckets none h.buckets, ?_⟩, hsources, ?_⟩
  · simp
  · rintro k hk k' hk' rfl
    obtain ⟨b, -, rfl⟩ := List.mem_map.1 hk'
    simp at hk
  · rintro k hk k' hk' rfl
    obtain ⟨e, -, hb⟩ := List.mem_flatMap.1 hk'
    obtain ⟨b, -, rfl⟩ := List.mem_map.1 hb
    simp at hk

end

end AltrStream.Telemetry
