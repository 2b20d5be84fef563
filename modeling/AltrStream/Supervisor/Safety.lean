import AltrStream.Supervisor.Stages

/-! # What an update may do

Recreating the service, persisting an image and reporting a rollback are each
allowed only by what was seen before: the versions, the pull, and the health of
the service since it was recreated last.
-/
namespace AltrStream.Supervisor
open Python Domain Foundations Traced

/-! ### What is seen before an action -/

def Quiet (events : List Event) : Prop := ∀ image ok, Event.recreated image ok ∉ events

/-- The service was recreated with the image, and has been healthy at that version since. -/
def Verified (image : String) (expected : Json) (before : List Event) : Prop :=
  ∃ earlier since, before = earlier ++ .recreated image true :: since ∧ Quiet since ∧
    .checked expected true ∈ since

/-- The image was verified at that version, and the live endpoint reports it. -/
def Restored (image : String) (expected : Json) (before : List Event) : Prop :=
  ∃ earlier since live, before = earlier ++ .recreated image true :: since ∧ Quiet since ∧
    .checked expected true ∈ since ∧ .observed live ∈ since ∧ SameUpToV live expected

/-- The image was pulled, or found on the host where that is allowed. -/
def Fetched (a : Answers) (image : String) (before : List Event) : Prop :=
  .pulled image true ∈ before ∨ a.allowLocalImages = true ∧ .lookedUp image true ∈ before

section
variable {image : String} {expected : Json} {before events : List Event} {a : Answers}

theorem Quiet.append (h : Quiet before) (h' : Quiet events) : Quiet (before ++ events) :=
  fun image ok hmem => (List.mem_append.1 hmem).elim (h image ok) (h' image ok)

theorem Verified.append (h : Verified image expected before) (hquiet : Quiet events) :
    Verified image expected (before ++ events) := by
  obtain ⟨earlier, since, rfl, hsince, hchecked⟩ := h
  exact ⟨earlier, since ++ events, by simp, hsince.append hquiet, List.mem_append_left _ hchecked⟩

theorem Restored.append (h : Restored image expected before) (hquiet : Quiet events) :
    Restored image expected (before ++ events) := by
  obtain ⟨earlier, since, live, rfl, hsince, hchecked, hlive, hsame⟩ := h
  exact ⟨earlier, since ++ events, live, by simp, hsince.append hquiet,
    List.mem_append_left _ hchecked, List.mem_append_left _ hlive, hsame⟩

theorem Restored.verified (h : Restored image expected before) : Verified image expected before := by
  obtain ⟨earlier, since, -, hbefore, hsince, hchecked, -⟩ := h
  exact ⟨earlier, since, hbefore, hsince, hchecked⟩

theorem Fetched.append (h : Fetched a image before) : Fetched a image (before ++ events) :=
  h.imp (List.mem_append_left _) (And.imp_right (List.mem_append_left _))

end

/-! ### What is allowed -/

section
variable (I : Interpreter) (h : Host) (a : Answers)

/-- The image that may be persisted: the target or the previous image, each verified. -/
def Persistable (image : String) (before : List Event) : Prop :=
  ∃ req running, Processes I h a req running ∧
    (image = req.targetImage ∧ Verified image req.targetVersion before ∨
      previousImage I req a = .ok image ∧ Verified image (running.orElse req.currentVersion) before)

def Allowed (before : List Event) : Event → Prop
  | .recreated _ _ => ∃ req running, Processes I h a req running ∧
      NotNewer I running req.targetVersion ∧ Fetched a req.targetImage before
  | .saved file image content => Rewrites h image content file ∧ Persistable I h a image before
  | .spoiled _ image _ => Persistable I h a image before
  | .wrote status _ => state? status = some "rolled_back" →
      ∃ req running previous, Processes I h a req running ∧ previousImage I req a = .ok previous ∧
        Restored previous (running.orElse req.currentVersion) before
  | _ => True

variable {I h a} {before : List Event}

theorem Persistable.append {image : String} {events : List Event}
    (himage : Persistable I h a image before) (hquiet : Quiet events) :
    Persistable I h a image (before ++ events) := by
  obtain ⟨req, running, hproc, hor⟩ := himage
  exact ⟨req, running, hproc, hor.imp (And.imp_right (·.append hquiet))
    (And.imp_right (·.append hquiet))⟩

/-- Where nothing is recreated, an action may use what was seen before the whole block. -/
theorem guarded_of_quiet {α : Type} {m : Step α} (hquiet : Quiet m.events)
    (hm : ∀ e ∈ m.events, ∀ events, Quiet events → Allowed I h a (before ++ events) e) :
    Guarded (Allowed I h a) before m := by
  intro pre e post heq
  refine hm e (heq ▸ List.mem_append_right _ List.mem_cons_self) pre fun image ok hmem => ?_
  exact hquiet image ok (heq ▸ List.mem_append_left _ hmem)

/-! ### The stages -/

/-- Asking and reporting progress is always allowed. -/
theorem allowed_of_free (before : List Event) (e : Event) (hfree : e.Free) : Allowed I h a before e := by
  cases e with
  | recreated | saved | spoiled | unlinked | removedInContainer => exact hfree.elim
  | wrote => exact fun hstate => absurd hstate hfree.2
  | _ => trivial

theorem guarded_of_free {α : Type} {m : Step α} (hm : Only Event.Free m) :
    Guarded (Allowed I h a) before m := .of_only hm allowed_of_free

theorem guarded_write {status : Json} {image : Option String}
    (hstatus : state? status ≠ some "rolled_back") :
    Guarded (Allowed I h a) before (writeStatus status image) :=
  .act fun hstate => absurd hstate hstatus

theorem allowed_of_cleans (before : List Event) (e : Event) (hcleans : e.Cleans) :
    Allowed I h a before e := by
  cases e <;> trivial

theorem quiet_persist (image : String) : Quiet (persistImageUpdate image h a).events := by
  intro image' ok hmem
  rcases mem_events_persist hmem with ⟨file, content, heq, -⟩ | ⟨file, left, heq⟩ <;> cases heq

theorem guarded_persist {image : String} (himage : Persistable I h a image before) :
    Guarded (Allowed I h a) before (persistImageUpdate image h a) := by
  refine guarded_of_quiet (quiet_persist image) fun e he events hquiet => ?_
  rcases mem_events_persist he with ⟨file, content, rfl, hnew⟩ | ⟨file, left, rfl⟩
  · exact ⟨hnew, himage.append hquiet⟩
  · exact himage.append hquiet

/-- What is fetched was pulled or found. -/
theorem fetched_of_fetchImage {image : String} (hok : (fetchImage image a).result = .ok (.ok ())) :
    Fetched a image (fetchImage image a).events := by
  have hpull : ∀ result, (pullImage image a).result = .ok result →
      result = .ok () → .pulled image true ∈ (pullImage image a).events := by
    intro result hresult hdone
    unfold pullImage at hresult ⊢
    cases htimed : a.pullTimed with
    | ok => simp [act_bind]
    | failed message => simp [htimed, act_bind, Pulled.toExcept, hdone] at hresult
    | typeError message =>
      cases hplain : a.pullPlain <;>
        simp [htimed, hplain, act_bind, Pulled.toExcept, hdone] at hresult ⊢
  unfold fetchImage at hok ⊢
  obtain ⟨result, hresult, hrest⟩ := result_bind_eq_ok.1 hok
  rw [bind_of_ok hresult]
  cases result with
  | ok => exact .inl (List.mem_append_left _ (hpull _ hresult rfl))
  | error message =>
    by_cases hallow : a.allowLocalImages = true
    · cases hlocal : a.existsLocally with
      | error message => simp [hallow, hlocal] at hrest
      | ok found =>
        cases found with
        | true => exact .inr ⟨hallow, by simp [hallow, act_bind]⟩
        | false => simp [hallow, hlocal, act_bind] at hrest
    · simp [hallow] at hrest

section
variable {req : Request} {running : Json}

/-- A target that was activated is verified. -/
theorem verified_of_activate (hok : (activate req a).result = .ok true) :
    Verified req.targetImage req.targetVersion (before ++ (activate req a).events) := by
  unfold activate at hok ⊢
  cases happlied : a.recreatesTarget && a.copiesToTarget with
  | false => simp [happlied, act_bind] at hok
  | true =>
    obtain ⟨hrecreates, -⟩ := Bool.and_eq_true_iff.1 happlied
    have hhealthy : a.targetHealthy = true := by simpa [happlied, act_bind, writeStatus] using hok
    simp only [hrecreates, hhealthy, act_bind, writeStatus, if_true, events_pure]
    refine ⟨before, [.wrote _ _, .checked req.targetVersion true], rfl, fun image ok hmem => ?_, by simp⟩
    simp at hmem

theorem guarded_activate (hproc : Processes I h a req running)
    (hnewer : NotNewer I running req.targetVersion) (hfetched : Fetched a req.targetImage before) :
    Guarded (Allowed I h a) before (activate req a) := by
  unfold activate
  refine .bind (.act ⟨req, running, hproc, hnewer, hfetched⟩) fun _ _ => ?_
  split_ifs
  · refine .bind (guarded_write (by simp)) fun _ _ => ?_
    exact .bind (.act trivial) fun _ _ => .pure _
  · exact .pure _

theorem guarded_complete (hproc : Processes I h a req running)
    (hverified : Verified req.targetImage req.targetVersion before) :
    Guarded (Allowed I h a) before (complete I req h a) := by
  refine .bind (guarded_persist ⟨req, running, hproc, .inl ⟨rfl, hverified⟩⟩) fun _ _ => ?_
  refine guarded_finish allowed_of_cleans fun hstate => ?_
  rw [completedStatus, state?_status] at hstate
  exact absurd hstate (by decide)

/-- The previous image is restored where it is healthy and the versions agree. -/
theorem restored_of_restore {previous version : String} {expected : Json} {live : Option String}
    (hok : (restore expected previous a).result = .ok (true, live))
    (hexpected : lstripV expected = .ok version) (hlive : lstripV (.text (live.getD "")) = .ok version) :
    Restored previous expected (before ++ (restore expected previous a).events) := by
  unfold restore at hok ⊢
  cases hrecreates : a.recreatesPrevious with
  | false => simp [hrecreates, act_bind] at hok
  | true =>
    have hseen : a.previousHealthy = true ∧ a.rollbackVersion = live := by
      simpa [hrecreates, act_bind] using hok
    simp only [hseen.1, act_bind, if_true, events_pure]
    refine ⟨before, [.checked expected true, .observed a.rollbackVersion], live, rfl,
      fun image ok hmem => ?_, by simp, by simp [hseen.2], version, hexpected, hlive⟩
    simp at hmem

theorem guarded_rollBack {previous : String} (hproc : Processes I h a req running)
    (hnewer : NotNewer I running req.targetVersion) (hfetched : Fetched a req.targetImage before)
    (hprevious : previousImage I req a = .ok previous) :
    Guarded (Allowed I h a) before
      (rollBack I req (running.orElse req.currentVersion) previous h a) := by
  unfold rollBack
  refine .bind (guarded_write (by simp)) fun _ _ => .bind ?_ fun seen hseen => ?_
  · unfold restore
    refine .bind (.act ⟨req, running, hproc, hnewer, hfetched.append⟩) fun _ _ => ?_
    split_ifs
    · refine .bind (.act trivial) fun _ _ => ?_
      exact .bind (.act trivial) fun _ _ => .pure _
    · exact .pure _
  · obtain ⟨healthy, live⟩ := seen
    refine .bind (.answer _) fun cleanExpected hexpected => ?_
    refine .bind (.answer _) fun cleanLive hlive => ?_
    simp only [events_answer, List.append_nil]
    split_ifs with hrestored
    · simp only [Bool.and_eq_true, decide_eq_true_eq] at hrestored
      obtain ⟨rfl, rfl⟩ := hrestored
      have hall : ∀ before, Restored previous (running.orElse req.currentVersion)
          (before ++ (restore (running.orElse req.currentVersion) previous a).events) :=
        fun _ => restored_of_restore hseen hexpected hlive
      refine .bind (guarded_persist ⟨req, running, hproc, .inr ⟨hprevious, (hall _).verified⟩⟩) fun _ _ => ?_
      exact guarded_finish allowed_of_cleans fun _ =>
        ⟨req, running, previous, hproc, hprevious, (hall _).append (quiet_persist previous)⟩
    · refine guarded_finish allowed_of_cleans fun hstate => ?_
      rw [rollbackFailedStatus, state?_status] at hstate
      exact absurd hstate (by decide)

theorem guarded_update (hproc : Processes I h a req running)
    (hnewer : NotNewer I running req.targetVersion) :
    Guarded (Allowed I h a) before (update I req running h a) := by
  unfold update
  refine .bind (guarded_write (by simp)) fun _ _ => .bind (guarded_of_free free_fetchImage) fun fetched hfetched => ?_
  cases fetched with
  | error message =>
    refine guarded_finish allowed_of_cleans fun hstate => ?_
    rw [state?_status] at hstate
    exact absurd hstate (by decide)
  | ok =>
    have hgot := fetched_of_fetchImage hfetched
    refine .bind (.answer _) fun previous hprevious => .bind (guarded_write (by simp)) fun _ _ => ?_
    have hbefore : ∀ before, Fetched a req.targetImage (before ++ (fetchImage req.targetImage a).events) :=
      fun before => hgot.imp (List.mem_append_right _) (And.imp_right (List.mem_append_right _))
    refine .bind (guarded_activate hproc hnewer (hbefore _).append.append) fun active hactive => ?_
    cases active with
    | true => exact guarded_complete hproc (verified_of_activate hactive)
    | false => exact guarded_rollBack hproc hnewer (hbefore _).append.append.append hprevious

end

/-- Whatever Docker and the health endpoint answer, a step only does what it may: it recreates the
service only for a request that is not older than what runs and whose image was fetched, persists
only an image that was verified, and reports a rollback only where one was verified. -/
theorem processPendingRequest_guarded (I : Interpreter) (h : Host) (a : Answers) :
    Guarded (Allowed I h a) [] (processPendingRequest I h a) := by
  refine .bind (guarded_of_free free_syncRequest) fun found hfound => ?_
  cases found with
  | none => exact .pure _
  | some file =>
    change Guarded _ _ (processRequest I file h a)
    unfold processRequest
    cases hread : readRequest I file with
    | error message =>
      exact .bind (guarded_write (by simp)) fun _ _ => .bind (.of_only cleans_cleanup allowed_of_cleans) fun _ _ => .pure _
    | ok req =>
      refine .bind (guarded_of_free free_runningVersion) fun running hrunning => .bind (.answer _) fun verdict hgate => ?_
      cases verdict with
      | some status =>
        refine guarded_finish allowed_of_cleans fun hstate => ?_
        have hgated := @gate_result I req running
        rw [show gate I req running = _ from hgate] at hgated
        rcases hgated.2.2 with hfailed | ⟨hcompleted, -⟩
        · simp [hfailed] at hstate
        · simp [hcompleted] at hstate
      | none => exact guarded_update ⟨file, hfound, hread, hrunning⟩ (notNewer_of_gate hgate)

end

end AltrStream.Supervisor
