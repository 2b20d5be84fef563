import AltrStream.Foundations.Reached
import AltrStream.Telemetry.Tracker

/-! # Durable totals

As long as no operation falls between a snapshot and the end of its save, and saves and
clearings keep apart, the database holds what is in memory whenever no save is under way.
-/
namespace AltrStream.Telemetry
open Foundations

/-- The database says what is counted, with one row for a key. -/
structure Synced (db : Db) (u : Usage) : Prop where
  nodup : (Dict.keys db).Nodup
  same : ∀ k, (db.get? k).getD {} = u.count k

/-- Between its snapshot and its commit. -/
def Save.isSaving : Save → Bool
  | .saving .. => true
  | _ => false

/-- What may happen: an operation is recorded while a new save can be scheduled or a scheduled
one has not taken its snapshot; no snapshot is taken while another one is being written or a
clearing has deleted the rows and not the memory; no clearing commits while a snapshot is
being written. -/
def Allowed (t : Tracker) : Action → Prop
  | .record _ count _ _ => 0 < count → t.saveScheduled = true → .sleeping ∈ t.saves
  | .clearData => True
  | .save i => t.saves[i]? = some .sleeping → (∀ s ∈ t.saves, s.isSaving = false) ∧ .resets ∉ t.clears
  | .clear i => t.clears[i]? = some .commits → ∀ s ∈ t.saves, s.isSaving = false

instance (t : Tracker) (a : Action) : Decidable (Allowed t a) :=
  match a with
  | .record _ count _ _ => inferInstanceAs (Decidable (0 < count → t.saveScheduled = true → .sleeping ∈ t.saves))
  | .clearData => inferInstanceAs (Decidable True)
  | .save i => inferInstanceAs (Decidable (t.saves[i]? = some .sleeping → _ ∧ _))
  | .clear i => inferInstanceAs (Decidable (t.clears[i]? = some .commits → ∀ s ∈ t.saves, s.isSaving = false))

/-! ### Writing the rows -/

/-- The rows were found exactly if they exist. -/
def Accurate (db : Db) (pending : List ((RowKey × Counts) × Bool)) : Prop :=
  ∀ row ∈ pending, row.2 = true ↔ row.1.1 ∈ Dict.keys db

theorem selectRow_eq_ok {db : Db} {key : RowKey} {found : Bool} (h : selectRow db key = .ok found) :
    found = true ↔ key ∈ Dict.keys db := by
  have hmem : key ∈ Dict.keys db ↔ db.filter (·.1 = key) ≠ [] := by
    simp [Dict.keys, List.filter_eq_nil_iff]
  rw [hmem]
  unfold selectRow at h
  split at h
  · rename_i heq
    simp [heq, ← Except.ok.inj h]
  · rename_i heq
    simp [heq, ← Except.ok.inj h]
  · cases h

theorem writeRow_eq_ok {db db' : Db} {row : (RowKey × Counts) × Bool}
    (hfound : row.2 = true ↔ row.1.1 ∈ Dict.keys db) (h : writeRow db row = .ok db') :
    db' = db.set row.1.1 row.1.2 := by
  obtain ⟨⟨key, counts⟩, found⟩ := row
  cases found with
  | true =>
    simp only [writeRow] at h
    split_ifs at h
    exact (Except.ok.inj h).symm
  | false =>
    have hnew : key ∉ Dict.keys db := fun hmem => by simpa using hfound.2 hmem
    rw [Dict.set_eq_append hnew]
    cases key with
    | usage source =>
      simp only [writeRow] at h
      split_ifs at h
      exact (Except.ok.inj h).symm
    | log source minute => exact (Except.ok.inj h).symm

/-- Rows with different keys that were looked up correctly are all written. -/
theorem commit_eq_ok {db db' : Db} {pending : List ((RowKey × Counts) × Bool)}
    (hnodup : (Dict.keys (pending.map Prod.fst)).Nodup) (haccurate : Accurate db pending)
    (h : commit db pending = .ok db') : db' = db.update (pending.map Prod.fst) := by
  induction pending generalizing db with
  | nil => exact (Except.ok.inj h).symm
  | cons row rows ih =>
    obtain ⟨hnot, hrows⟩ := List.nodup_cons.1 hnodup
    obtain ⟨hrow, hothers⟩ := List.forall_mem_cons.1 haccurate
    unfold commit at h
    cases hwrite : writeRow db row with
    | error e => simp [hwrite, Except.bind] at h
    | ok db1 =>
      obtain rfl := writeRow_eq_ok hrow hwrite
      refine ih hrows (fun row' hmem => ?_) (by simpa [hwrite, Except.bind] using h)
      have hne : row'.1.1 ≠ row.1.1 := fun heq =>
        hnot (heq ▸ List.mem_map_of_mem (List.mem_map_of_mem hmem))
      rw [hothers row' hmem, Dict.mem_keys_set]
      exact (or_iff_right hne).symm

/-! ### The invariant -/

/-- The rows are a snapshot that is up to date, or will be followed by another one. -/
def SnapshotOf (t : Tracker) (rows : List (RowKey × Counts)) : Prop :=
  ∃ u : Usage, u.Keyed ∧ rows = u.rows ∧ (∀ k, u.count k ≠ {} → t.usage.count k ≠ {}) ∧
    (u = t.usage ∨ .sleeping ∈ t.saves)

structure Inv (t : Tracker) : Prop where
  keyed : t.usage.Keyed
  nodup : (Dict.keys t.db).Nodup
  counted : ∀ k, (t.db.get? k).getD {} ≠ {} → t.usage.count k ≠ {}
  saving : ∀ todo pending, .saving todo pending ∈ t.saves →
    SnapshotOf t (pending.map Prod.fst ++ todo) ∧ Accurate t.db pending
  single : t.saves.countP Save.isSaving ≤ 1
  closing : .resets ∈ t.clears → t.db = [] ∧ ∀ s ∈ t.saves, s.isSaving = false
  settled : (∀ s ∈ t.saves, s = .saved) → .resets ∉ t.clears → Synced t.db t.usage

theorem inv_of_synced {u : Usage} {db : Db} (hkeyed : u.Keyed) (h : Synced db u) :
    Inv { usage := u, db := db } where
  keyed := hkeyed
  nodup := h.nodup
  counted k hne := h.same k ▸ hne
  saving := nofun
  single := by simp
  closing := nofun
  settled _ _ := h

section
variable {t t' : Tracker} {i : ℕ}

theorem SnapshotOf.mono {rows : List (RowKey × Counts)} (h : SnapshotOf t rows)
    (hcount : ∀ k, t.usage.count k ≠ {} → t'.usage.count k ≠ {})
    (hlast : t'.usage = t.usage ∧ (.sleeping ∈ t.saves → .sleeping ∈ t'.saves) ∨ .sleeping ∈ t'.saves) :
    SnapshotOf t' rows := by
  obtain ⟨u, hkeyed, rfl, hu, hsame⟩ := h
  refine ⟨u, hkeyed, rfl, fun k hne => hcount k (hu k hne), ?_⟩
  rcases hlast with ⟨husage, hsleeping⟩ | hsleeping
  · exact hsame.imp (fun heq => heq.trans husage.symm) hsleeping
  · exact .inr hsleeping

/-- A counted operation leaves a save behind that has not taken its snapshot. -/
theorem inv_counted {kind : Kind} {n : ℕ} {minute : Minute} {source : Option SourceId} (h : Inv t)
    {saves : List Save} {scheduled : Bool} (hsaves : saves = t.saves ∨ saves = t.saves ++ [.sleeping])
    (hsleeping : .sleeping ∈ saves) :
    Inv { t with usage := t.usage.record kind n minute source, saveScheduled := scheduled, saves } where
  keyed := h.keyed.record
  nodup := h.nodup
  counted k hne := count_record_ne (h.counted k hne)
  saving todo pending hmem := by
    have hold : .saving todo pending ∈ t.saves := by
      rcases hsaves with rfl | rfl
      · exact hmem
      · simpa using hmem
    obtain ⟨hsnapshot, haccurate⟩ := h.saving todo pending hold
    exact ⟨hsnapshot.mono (fun k => count_record_ne) (.inr hsleeping), haccurate⟩
  single := by
    rcases hsaves with rfl | rfl
    · exact h.single
    · simpa [List.countP_append, Save.isSaving] using h.single
  closing hresets := by
    obtain ⟨hdb, hnone⟩ := h.closing hresets
    refine ⟨hdb, ?_⟩
    rcases hsaves with rfl | rfl
    · exact hnone
    · exact List.forall_mem_append.2 ⟨hnone, List.forall_mem_singleton.2 rfl⟩
  settled hall := nomatch hall _ hsleeping

theorem inv_record {kind : Kind} {count : ℤ} {minute : Minute} {source : Option SourceId} (h : Inv t)
    (hallowed : Allowed t (.record kind count minute source))
    (hstep : t.step (.record kind count minute source) = .ok t') : Inv t' := by
  obtain rfl := (Except.ok.inj hstep).symm
  by_cases hcount : count ≤ 0
  · rwa [if_pos hcount]
  · rw [if_neg hcount]
    unfold Tracker.scheduleSave
    by_cases hscheduled : t.saveScheduled = true
    · rw [if_pos hscheduled]
      exact inv_counted h (.inl rfl) (hallowed (by omega) hscheduled)
    · rw [if_neg hscheduled]
      exact inv_counted h (.inr rfl) (by simp)

/-- What one task does does not concern another one. -/
theorem mem_set_of_ne {α : Type} {l : List α} {a x b : α} (hx : l[i]? = some x) (ha : a ∈ l) (hne : a ≠ x) :
    a ∈ l.set i b := by
  obtain ⟨j, hj⟩ := List.mem_iff_getElem?.1 ha
  refine List.mem_iff_getElem?.2 ⟨j, ?_⟩
  rw [List.getElem?_set_ne, hj]
  rintro rfl
  rw [hx] at hj
  exact hne (Option.some.inj hj).symm

theorem countP_set_saves {saves : List Save} {x b : Save} (hx : saves[i]? = some x) :
    (saves.set i b).countP Save.isSaving + (if x.isSaving then 1 else 0) =
      saves.countP Save.isSaving + (if b.isSaving then 1 else 0) := by
  obtain ⟨hi, rfl⟩ := List.getElem?_eq_some_iff.1 hx
  rw [List.countP_set hi]
  have hpos : saves[i].isSaving = true → 0 < saves.countP Save.isSaving := fun h =>
    List.countP_pos_iff.2 ⟨_, List.getElem_mem hi, h⟩
  split_ifs with hb hs hs <;> simp_all

/-- A snapshot is taken. -/
theorem inv_wake (h : Inv t) (hx : t.saves[i]? = some .sleeping)
    (hallowed : (∀ s ∈ t.saves, s.isSaving = false) ∧ .resets ∉ t.clears) :
    Inv { t with saves := t.saves.set i (.saving t.usage.rows []) } where
  keyed := h.keyed
  nodup := h.nodup
  counted := h.counted
  saving todo pending hmem := by
    rcases List.mem_or_eq_of_mem_set hmem with hold | hnew
    · exact absurd (hallowed.1 _ hold) (by simp [Save.isSaving])
    · obtain ⟨rfl, rfl⟩ := Save.saving.inj hnew
      exact ⟨⟨t.usage, h.keyed, rfl, fun _ => id, .inl rfl⟩, nofun⟩
  single := by
    have hcount := countP_set_saves (b := .saving t.usage.rows []) hx
    have hzero : t.saves.countP Save.isSaving = 0 := List.countP_eq_zero.2 fun s hs => by
      simp [hallowed.1 s hs]
    simp only [Save.isSaving, Bool.false_eq_true, if_false, if_true, hzero] at hcount
    exact Nat.le_of_eq hcount
  closing hresets := absurd hresets hallowed.2
  settled hall := by
    have hmem : .saving t.usage.rows [] ∈ t.saves.set i (.saving t.usage.rows []) :=
      List.mem_iff_getElem?.2 ⟨i, by
        rw [List.getElem?_set_self (List.getElem?_eq_some_iff.1 hx).1]⟩
    exact nomatch hall _ hmem

/-- A row is looked up. -/
theorem inv_select (h : Inv t) {row : RowKey × Counts} {todo : List (RowKey × Counts)}
    {pending : List ((RowKey × Counts) × Bool)} {found : Bool}
    (hx : t.saves[i]? = some (.saving (row :: todo) pending)) (hfound : selectRow t.db row.1 = .ok found) :
    Inv { t with saves := t.saves.set i (.saving todo (pending ++ [(row, found)])) } where
  keyed := h.keyed
  nodup := h.nodup
  counted := h.counted
  saving todo' pending' hmem := by
    have hkept : ∀ {rows}, SnapshotOf t rows → SnapshotOf
        { t with saves := t.saves.set i (.saving todo (pending ++ [(row, found)])) } rows := fun hrows =>
      hrows.mono (fun _ => id) (.inl ⟨rfl, fun hsleeping => mem_set_of_ne hx hsleeping nofun⟩)
    rcases List.mem_or_eq_of_mem_set hmem with hold | hnew
    · obtain ⟨hsnapshot, haccurate⟩ := h.saving _ _ hold
      exact ⟨hkept hsnapshot, haccurate⟩
    · obtain ⟨rfl, rfl⟩ := Save.saving.inj hnew
      obtain ⟨hsnapshot, haccurate⟩ := h.saving _ _ (List.mem_of_getElem? hx)
      refine ⟨?_, List.forall_mem_append.2 ⟨haccurate, List.forall_mem_singleton.2 (selectRow_eq_ok hfound)⟩⟩
      simpa using hkept hsnapshot
  single := by
    have hcount := countP_set_saves (b := .saving todo (pending ++ [(row, found)])) hx
    simp only [Save.isSaving, if_true, Nat.add_right_cancel_iff] at hcount
    exact Nat.le_trans (Nat.le_of_eq hcount) h.single
  closing hresets := absurd ((h.closing hresets).2 _ (List.mem_of_getElem? hx)) (by simp [Save.isSaving])
  settled hall := by
    have hmem : .saving todo (pending ++ [(row, found)]) ∈
        t.saves.set i (.saving todo (pending ++ [(row, found)])) :=
      List.mem_iff_getElem?.2 ⟨i, by rw [List.getElem?_set_self (List.getElem?_eq_some_iff.1 hx).1]⟩
    exact nomatch hall _ hmem

/-- After a commit the rows of the snapshot say what is counted there, the others what they said. -/
theorem getD_update_rows {u : Usage} (hkeyed : u.Keyed) (db : Db) (k : RowKey) :
    ((db.update u.rows).get? k).getD {} = u.count k ∨
      ((db.update u.rows).get? k).getD {} = (db.get? k).getD {} ∧ u.count k = {} := by
  by_cases hk : ∃ c, (k, c) ∈ u.rows
  · obtain ⟨c, hmem⟩ := hk
    have hc := hkeyed.count_of_mem_rows hmem
    left
    rw [Dict.get?_update_of_mem hmem fun c' hc' => (hkeyed.count_of_mem_rows hc').symm.trans hc]
    exact hc.symm
  · right
    refine ⟨?_, not_not.1 fun hne => hk ⟨_, hkeyed.mem_rows_of_count hne⟩⟩
    rw [Dict.get?_update_of_not_mem fun hmem => ?_]
    obtain ⟨⟨k', c⟩, hrow, rfl⟩ := List.mem_map.1 hmem
    exact hk ⟨c, hrow⟩

/-- The snapshot is in the database. -/
theorem inv_commit (h : Inv t) {pending : List ((RowKey × Counts) × Bool)} {db : Db}
    (hx : t.saves[i]? = some (.saving [] pending)) (hcommit : commit t.db pending = .ok db) :
    Inv { t with db, saves := t.saves.set i .saved } := by
  obtain ⟨⟨u, hkeyed, hrows, hcount, hsame⟩, haccurate⟩ := h.saving _ _ (List.mem_of_getElem? hx)
  rw [List.append_nil] at hrows
  have hdb := commit_eq_ok (hrows ▸ hkeyed.nodup_rows) haccurate hcommit
  rw [hrows] at hdb
  have hnone : (t.saves.set i .saved).countP Save.isSaving = 0 := by
    have hsum := countP_set_saves (b := .saved) hx
    simp only [Save.isSaving, if_true, Bool.false_eq_true, if_false] at hsum
    have := h.single
    omega
  have hresets : .resets ∉ t.clears := fun hmem =>
    absurd ((h.closing hmem).2 _ (List.mem_of_getElem? hx)) (by simp [Save.isSaving])
  refine ⟨h.keyed, hdb ▸ Dict.nodup_keys_update h.nodup _, fun k hne => ?_, fun todo pending' hmem => ?_,
    Nat.le_trans (Nat.le_of_eq hnone) (Nat.zero_le _), fun hmem => absurd hmem hresets, fun hall _ => ?_⟩
  · rw [hdb] at hne
    rcases getD_update_rows hkeyed t.db k with heq | ⟨heq, -⟩
    · exact hcount k (heq ▸ hne)
    · exact h.counted k (heq ▸ hne)
  · exact absurd (List.countP_eq_zero.1 hnone _ hmem) (by simp [Save.isSaving])
  · have hlast : u = t.usage := by
      refine hsame.resolve_right fun hsleeping => ?_
      exact nomatch hall _ (mem_set_of_ne hx hsleeping nofun)
    refine ⟨hdb ▸ Dict.nodup_keys_update h.nodup _, fun k => ?_⟩
    rw [hdb, ← hlast]
    rcases getD_update_rows hkeyed t.db k with heq | ⟨heq, hzero⟩
    · exact heq
    · rw [heq, hzero]
      by_contra hne
      exact h.counted k hne (hlast ▸ hzero)

/-- The flag is reset. -/
theorem inv_finish (h : Inv t) (hx : t.saves[i]? = some .saved) :
    Inv { t with saves := t.saves.eraseIdx i, saveScheduled := false } := by
  have hmem : ∀ s ∈ t.saves, s = .saved ∨ s ∈ t.saves.eraseIdx i := by
    intro s hs
    obtain ⟨j, hj⟩ := List.mem_iff_getElem?.1 hs
    by_cases hji : j = i
    · subst hji
      exact .inl (Option.some.inj (hj.symm.trans hx))
    · exact .inr (List.mem_eraseIdx_iff_getElem?.2 ⟨j, hji, hj⟩)
  have hsub : ∀ s ∈ t.saves.eraseIdx i, s ∈ t.saves := fun s hs => List.mem_of_mem_eraseIdx hs
  refine ⟨h.keyed, h.nodup, h.counted, fun todo pending hs => ?_,
    Nat.le_trans (List.eraseIdx_sublist _ _).countP_le h.single,
    fun hresets => ⟨(h.closing hresets).1, fun s hs => (h.closing hresets).2 s (hsub s hs)⟩,
    fun hall hresets => h.settled (fun s hs => (hmem s hs).elim id (hall s)) hresets⟩
  obtain ⟨hsnapshot, haccurate⟩ := h.saving _ _ (hsub _ hs)
  exact ⟨hsnapshot.mono (fun _ => id) (.inl ⟨rfl, fun hsleeping =>
    (hmem _ hsleeping).resolve_left nofun⟩), haccurate⟩

/-- A call of `clear_data` that has not committed yet. -/
theorem inv_clears (h : Inv t) {clears : List Clear} (hclears : .resets ∈ clears ↔ .resets ∈ t.clears) :
    Inv { t with clears } where
  keyed := h.keyed
  nodup := h.nodup
  counted := h.counted
  saving := h.saving
  single := h.single
  closing hresets := h.closing (hclears.1 hresets)
  settled hall hresets := h.settled hall (mt hclears.2 hresets)

/-- The rows are deleted. -/
theorem inv_clearCommit (h : Inv t) {clears : List Clear} (hnone : ∀ s ∈ t.saves, s.isSaving = false)
    (hclears : .resets ∈ clears) : Inv { t with db := [], clears } where
  keyed := h.keyed
  nodup := List.nodup_nil
  counted _ hne := absurd rfl hne
  saving todo pending hmem := absurd (hnone _ hmem) (by simp [Save.isSaving])
  single := h.single
  closing _ := ⟨rfl, hnone⟩
  settled _ hresets := absurd hclears hresets

/-- The memory is reset. -/
theorem inv_reset (h : Inv t) (hx : t.clears[i]? = some .resets) :
    Inv { t with usage := {}, saveScheduled := false, clears := t.clears.eraseIdx i } := by
  obtain ⟨hdb, hnone⟩ := h.closing (List.mem_of_getElem? hx)
  have hempty : ∀ k, (t.db.get? k).getD {} = ({} : Usage).count k := by
    intro k
    rw [hdb]
    rcases k with (_ | s) | ⟨_ | s, m⟩ <;> rfl
  exact ⟨keyed_empty, h.nodup, fun k hne => hempty k ▸ hne,
    fun todo pending hmem => absurd (hnone _ hmem) (by simp [Save.isSaving]), h.single,
    fun _ => ⟨hdb, hnone⟩, fun _ _ => ⟨h.nodup, hempty⟩⟩

theorem inv_save (h : Inv t) (hallowed : Allowed t (.save i)) (hstep : t.save i = .ok t') : Inv t' := by
  unfold Tracker.save at hstep
  split at hstep
  · cases hstep
  · rename_i hx
    exact Except.ok.inj hstep ▸ inv_wake h hx (hallowed hx)
  · rename_i row todo pending hx
    cases hfound : selectRow t.db row.1 with
    | error e => simp [hfound, Except.bind] at hstep
    | ok found =>
      simp only [hfound, Except.bind, Except.ok.injEq] at hstep
      exact hstep ▸ inv_select h hx hfound
  · rename_i pending hx
    cases hcommit : commit t.db pending with
    | error e => simp [hcommit, Except.bind] at hstep
    | ok db =>
      simp only [hcommit, Except.bind, Except.ok.injEq] at hstep
      exact hstep ▸ inv_commit h hx hcommit
  · rename_i hx
    exact Except.ok.inj hstep ▸ inv_finish h hx

theorem mem_resets_set {clears : List Clear} {x b : Clear} (hx : clears[i]? = some x) (hne : x ≠ .resets)
    (hb : b ≠ .resets) : .resets ∈ clears.set i b ↔ .resets ∈ clears :=
  ⟨fun h => (List.mem_or_eq_of_mem_set h).resolve_right hb.symm, fun h => mem_set_of_ne hx h hne.symm⟩

theorem inv_clear (h : Inv t) (hallowed : Allowed t (.clear i)) (hstep : t.clear i = .ok t') : Inv t' := by
  unfold Tracker.clear at hstep
  split at hstep
  · cases hstep
  · rename_i hx
    exact Except.ok.inj hstep ▸ inv_clears h (mem_resets_set hx nofun nofun)
  · rename_i hx
    exact Except.ok.inj hstep ▸ inv_clears h (mem_resets_set hx nofun nofun)
  · rename_i hx
    refine Except.ok.inj hstep ▸ inv_clearCommit h (hallowed hx) ?_
    exact List.mem_iff_getElem?.2 ⟨i, by rw [List.getElem?_set_self (List.getElem?_eq_some_iff.1 hx).1]⟩
  · rename_i hx
    exact Except.ok.inj hstep ▸ inv_reset h hx

theorem inv_step {a : Action} (h : Inv t) (hallowed : Allowed t a) (hstep : t.step a = .ok t') : Inv t' := by
  cases a with
  | record kind count minute source => exact inv_record h hallowed hstep
  | clearData => exact Except.ok.inj hstep ▸ inv_clears h (by simp)
  | save i => exact inv_save h hallowed hstep
  | clear i => exact inv_clear h hallowed hstep

end

/-- In every state that allowed steps reach, the database holds what is in memory when no save is
scheduled or running and no clearing has deleted the rows and not the memory. -/
theorem synced_of_reached {u : Usage} {db : Db} {t : Tracker} (hkeyed : u.Keyed) (hstart : Synced db u)
    (hrun : Reached Tracker.step Allowed { usage := u, db := db } t) (hsaves : t.saves = [])
    (hclears : .resets ∉ t.clears) : Synced t.db t.usage :=
  (hrun.invariant (inv_of_synced hkeyed hstart) fun _ _ _ => inv_step).settled (by simp [hsaves]) hclears

theorem synced_empty : Synced [] {} :=
  ⟨List.nodup_nil, fun k => by rcases k with (_ | s) | ⟨_ | s, m⟩ <;> rfl⟩

def oneRead : Action := .record .read 1 "2026-01-01 00:00:00" none

/-- A read that is saved. -/
def savedRead : List Action := [oneRead, .save 0, .save 0, .save 0, .save 0, .save 0]

theorem reached_savedRead : Reached Tracker.step Allowed {} (savedRead.foldl (attempt Tracker.step) {}) :=
  .step (.save 0) (.step (.save 0) (.step (.save 0) (.step (.save 0) (.step (.save 0)
    (.step oneRead .start (by decide)) (by decide)) (by decide)) (by decide)) (by decide)) (by decide)

/-- After the save the database holds the read. -/
theorem synced_savedRead : Synced (savedRead.foldl (attempt Tracker.step) {}).db
    (savedRead.foldl (attempt Tracker.step) {}).usage :=
  synced_of_reached keyed_empty synced_empty reached_savedRead (by decide) (by decide)

/-- A second read falls between the snapshot and the end of the save. -/
def lostRead : List Action := [oneRead, .save 0, oneRead, .save 0, .save 0, .save 0, .save 0]

/-- No save is scheduled any more, and the database misses a read. -/
theorem not_synced_of_reached : ¬ ∀ (u : Usage) (db : Db) (t : Tracker), u.Keyed → Synced db u →
    Reached Tracker.step (fun _ _ => True) { usage := u, db := db } t → t.saves = [] →
      .resets ∉ t.clears → Synced t.db t.usage := by
  intro hall
  have hrun : Reached Tracker.step (fun _ _ => True) {} (lostRead.foldl (attempt Tracker.step) {}) :=
    Reached.start.foldl fun _ _ _ => trivial
  have hsynced := hall {} [] _ keyed_empty synced_empty hrun (by decide) (by decide)
  exact absurd (hsynced.same (.usage none)) (by decide)

end AltrStream.Telemetry
