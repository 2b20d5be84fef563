import AltrStream.Foundations.Traced
import AltrStream.Supervisor.Completion

/-! # The states of an update

`UpdateStatusState` in `domain/updates.py`: the states that a status file can report,
and which of them are active, cancellable, critical or terminal. The supervisor walks
through them along the edges of one graph, and what it does to the service fits the
state that the status file reports meanwhile.
-/
namespace AltrStream.Supervisor
open Python Domain Foundations Traced

inductive UpdateStatusState where
  | idle
  | requested
  | staging
  | applying
  | healthCheck
  | completed
  | failed
  | cancelled
  | rollingBack
  | rolledBack
  deriving DecidableEq, Repr

namespace UpdateStatusState

def value : UpdateStatusState → String
  | idle => "idle"
  | requested => "requested"
  | staging => "staging"
  | applying => "applying"
  | healthCheck => "health_check"
  | completed => "completed"
  | failed => "failed"
  | cancelled => "cancelled"
  | rollingBack => "rolling_back"
  | rolledBack => "rolled_back"

def all : List UpdateStatusState :=
  [idle, requested, staging, applying, healthCheck, completed, failed, cancelled, rollingBack,
    rolledBack]

/-- `UpdateStatusState(value)` -/
def ofValue? (value : String) : Option UpdateStatusState := all.find? (·.value = value)

def isActive (s : UpdateStatusState) : Bool :=
  s ∈ [requested, staging, applying, healthCheck, rollingBack]

def isCancellable (s : UpdateStatusState) : Bool := s ∈ [requested, staging]

def isCritical (s : UpdateStatusState) : Bool := s ∈ [applying, healthCheck, rollingBack]

def isTerminal (s : UpdateStatusState) : Bool := s ∈ [completed, failed, cancelled, rolledBack, idle]

/-- The states that the supervisor can report after a state. -/
def next : UpdateStatusState → List UpdateStatusState
  | requested => [staging, completed, failed]
  | staging => [applying, failed]
  | applying => [healthCheck, rollingBack]
  | healthCheck => [completed, rollingBack]
  | rollingBack => [rolledBack, failed]
  | idle | completed | failed | cancelled | rolledBack => []

@[simp] theorem ofValue?_value (s : UpdateStatusState) : ofValue? s.value = some s := by
  cases s <;> decide

/-- An active state can be cancelled or is critical, and the others are terminal. -/
theorem isActive_eq (s : UpdateStatusState) :
    s.isActive = (s.isCancellable != s.isCritical) ∧ s.isTerminal = !s.isActive := by
  cases s <;> decide

end UpdateStatusState

open UpdateStatusState

/-- The state that a status reports. -/
def stateOf (status : Json) : Option UpdateStatusState := (state? status).bind ofValue?

theorem stateOf_of_state? {status : Json} {s : UpdateStatusState} (h : state? status = some s.value) :
    stateOf status = some s := by
  rw [stateOf, h, Option.bind_some, ofValue?_value]

/-- The state on disk. -/
def Host.state? (h : Host) : Option UpdateStatusState :=
  h.status.bind fun file => file.content.toOption.bind stateOf

/-! ### What fits a state -/

/-- The state that is reported after an action. -/
def report (s : UpdateStatusState) : Event → UpdateStatusState
  | .wrote status _ => (stateOf status).getD s
  | _ => s

/-- The action fits the state that was reported last, `requested` being the start of a step. -/
def Fits (s : UpdateStatusState) : Event → Prop
  | .wrote status _ => ∃ t ∈ s.next, stateOf status = some t
  | .pulled .. | .lookedUp .. => s = .staging
  | .recreated .. | .checked .. | .saved .. | .spoiled .. => s.isCritical = true
  | .unlinked | .removedInContainer => s.isTerminal = true
  | .syncedRequest _ | .syncedStatus _ => s = .requested
  | .observed _ => s = .requested ∨ s = .rollingBack

/-- A step that returns has reported a terminal state, or there was no request. -/
def Ended (r : Option Json) (s : UpdateStatusState) : Prop :=
  (∃ status, r = some status ∧ stateOf status = some s ∧ s.isTerminal = true) ∨
    r = none ∧ (s = .requested ∨ s = .failed)

/-- From a state the step reports along the graph, and does what fits. A step that raises leaves an
active state behind. -/
abbrev Proceeds {α : Type} (s : UpdateStatusState) (m : Step α)
    (returns : α → UpdateStatusState → Prop) : Prop :=
  Walks report Fits s m returns fun _ t => t.isActive = true

/-- The action fits the state on disk. What a workflow reports after its first status is next to
the state on disk. -/
def Matches (h : Host) : Event → Prop
  | .wrote status _ => ∃ t, stateOf status = some t ∧
      (t ∉ UpdateStatusState.requested.next → ∃ s, h.state? = some s ∧ t ∈ s.next)
  | .pulled .. | .lookedUp .. => h.state? = some .staging
  | .recreated .. | .checked .. | .saved .. | .spoiled .. =>
    ∃ s, h.state? = some s ∧ s.isCritical = true
  | .unlinked | .removedInContainer => ∃ s, h.state? = some s ∧ s.isTerminal = true
  | .syncedRequest _ | .syncedStatus _ | .observed _ => True

/-- The supervisor walks through the states of an update. -/
structure FollowsStates (I : Interpreter) : Prop where
  steps : ∀ h a, Proceeds .requested (processPendingRequest I h a) Ended
  restarts : ∀ h a, Proceeds .requested (reconcileStartupState I h a) Ended
  /-- In every run, wherever it crashes and whatever is changed on the host between its moves, every
  action fits the state on disk. -/
  runs : ∀ h moves, ∀ met ∈ history I h moves, Matches met.1 met.2

/-! ### The stages -/

section
variable {I : Interpreter} {h : Host} {a : Answers} {req : Request} {s t : UpdateStatusState}

/-- The action leaves the state as it is, and fits it. -/
def Still (s : UpdateStatusState) (e : Event) : Prop := report s e = s ∧ Fits s e

theorem proceeds_of_still {α : Type} {m : Step α} (hm : Only (Still s) m)
    (hactive : s.isActive = true) : Proceeds s m fun a t => t = s ∧ m.result = .ok a :=
  .of_still hm (fun _ h => ⟨rfl, h⟩) fun _ _ => hactive

theorem proceeds_write {status : Json} {image : Option String} (hnext : t ∈ s.next)
    (hstate : stateOf status = some t) :
    Proceeds s (writeStatus status image) fun _ u => u = t :=
  .act ⟨t, hnext, hstate⟩ (by rw [report, hstate]; rfl)

theorem still_syncRequest : Only (Still .requested) (syncRequest h a) := by
  unfold syncRequest
  split
  · exact .pure _
  · refine .bind (.act ⟨rfl, rfl⟩) fun _ _ => ?_
    split
    · exact .bind (.act ⟨rfl, rfl⟩) fun _ _ => .pure _
    · exact .pure _
  · exact .bind (.act ⟨rfl, rfl⟩) fun _ _ => .pure _
  · exact .pure _

theorem still_runningVersion : Only (Still .requested) (runningVersion req a) := by
  refine .bind (.act ⟨rfl, .inl rfl⟩) fun _ _ => ?_
  dsimp only
  split_ifs
  · split
    · exact .raise _
    · exact .pure _
  · exact .pure _

theorem still_pullImage {image : String} : Only (Still .staging) (pullImage image a) := by
  unfold pullImage
  refine .bind (.act ⟨rfl, rfl⟩) fun _ _ => ?_
  cases a.pullTimed with
  | ok => exact .pure _
  | typeError => exact .bind (.act ⟨rfl, rfl⟩) fun _ _ => .pure _
  | failed => exact .pure _

theorem still_fetchImage {image : String} : Only (Still .staging) (fetchImage image a) := by
  refine .bind still_pullImage fun result _ => ?_
  cases result with
  | ok => exact .pure _
  | error =>
    dsimp only
    split_ifs
    · split
      · exact .raise _
      · exact .bind (.act ⟨rfl, rfl⟩) fun _ _ => .pure _
    · exact .pure _

theorem still_persist {image : String} (hcritical : s.isCritical = true) :
    Only (Still s) (persistImageUpdate image h a) := by
  intro e he
  rcases mem_events_persist he with ⟨file, content, rfl, -⟩ | ⟨file, left, rfl⟩
  · exact ⟨rfl, hcritical⟩
  · exact ⟨rfl, hcritical⟩

theorem still_restore {expected : Json} {previous : String} :
    Only (Still .rollingBack) (restore expected previous a) := by
  unfold restore
  refine .bind (.act ⟨rfl, rfl⟩) fun _ _ => ?_
  split_ifs
  · exact .bind (.act ⟨rfl, rfl⟩) fun _ _ => .bind (.act ⟨rfl, .inr rfl⟩) fun _ _ => .pure _
  · exact .pure _

theorem still_cleanup {onHost : Bool} (hterminal : s.isTerminal = true) :
    Only (Still s) (cleanupRequestFile onHost a) := by
  intro e he
  have hcleans := cleans_cleanup e he
  cases e with
  | unlinked | removedInContainer => exact ⟨rfl, hterminal⟩
  | _ => exact hcleans.elim

theorem proceeds_cleanup {onHost : Bool} (hterminal : s.isTerminal = true) :
    Proceeds s (cleanupRequestFile onHost a) fun _ t => t = s := by
  refine .of_still (still_cleanup hterminal) (fun _ _ => rfl) fun e he => ?_
  cases onHost <;> cases hremoves : a.removesInContainer <;>
    simp [cleanupRequestFile, hremoves, act_bind] at he

theorem proceeds_finish {status : Json} {image : Option String} {onHost : Bool} (hnext : t ∈ s.next)
    (hstate : stateOf status = some t) (hterminal : t.isTerminal = true) :
    Proceeds s (finish status image onHost a) Ended := by
  refine .bind (proceeds_write hnext hstate) fun _ u _ hu => ?_
  subst hu
  refine .bind (proceeds_cleanup hterminal) fun _ v _ hv => ?_
  subst hv
  exact .pure (.inl ⟨status, rfl, hstate, hterminal⟩)

theorem stateOf_status (t : UpdateStatusState) (current : Json) (progress : ℤ) (message : String)
    (error : Json) (rollback : Bool) :
    stateOf (req.status t.value current progress message error rollback) = some t :=
  stateOf_of_state? (state?_status ..)

theorem proceeds_activate : Proceeds .applying (activate req a) fun active t =>
    .rollingBack ∈ t.next ∧ (active = true → t = .healthCheck) := by
  unfold activate
  refine .bind (proceeds_of_still (.act ⟨rfl, rfl⟩) rfl) fun _ t _ ht => ?_
  obtain ⟨rfl, -⟩ := ht
  split_ifs
  · refine .bind (proceeds_write (by decide) (stateOf_status .healthCheck ..)) fun _ t _ ht => ?_
    subst ht
    refine .bind (proceeds_of_still (.act ⟨rfl, rfl⟩) rfl) fun _ t _ ht => ?_
    obtain ⟨rfl, -⟩ := ht
    exact .pure ⟨by decide, fun _ => rfl⟩
  · exact .pure ⟨by decide, fun h => nomatch h⟩

theorem proceeds_complete : Proceeds .healthCheck (complete I req h a) Ended := by
  refine .bind (proceeds_of_still (still_persist rfl) rfl) fun _ t _ ht => ?_
  obtain ⟨rfl, -⟩ := ht
  exact proceeds_finish (by decide) (stateOf_status .completed ..) rfl

theorem proceeds_rollBack {expected : Json} {previous : String} (hnext : .rollingBack ∈ s.next) :
    Proceeds s (rollBack I req expected previous h a) Ended := by
  refine .bind (proceeds_write hnext (stateOf_status .rollingBack ..)) fun _ t _ ht => ?_
  subst ht
  refine .bind (proceeds_of_still still_restore rfl) fun seen t _ ht => ?_
  obtain ⟨rfl, -⟩ := ht
  obtain ⟨healthy, live⟩ := seen
  refine .bind (proceeds_of_still (.answer _) rfl) fun _ t _ ht => ?_
  obtain ⟨rfl, -⟩ := ht
  refine .bind (proceeds_of_still (.answer _) rfl) fun _ t _ ht => ?_
  obtain ⟨rfl, -⟩ := ht
  split_ifs
  · refine .bind (proceeds_of_still (still_persist rfl) rfl) fun _ t _ ht => ?_
    obtain ⟨rfl, -⟩ := ht
    exact proceeds_finish (by decide) (stateOf_status .rolledBack ..) rfl
  · exact proceeds_finish (by decide) (stateOf_status .failed ..) rfl

theorem proceeds_update {running : Json} : Proceeds .requested (update I req running h a) Ended := by
  refine .bind (proceeds_write (by decide) (stateOf_status .staging ..)) fun _ t _ ht => ?_
  subst ht
  refine .bind (proceeds_of_still still_fetchImage rfl) fun fetched t _ ht => ?_
  obtain ⟨rfl, -⟩ := ht
  cases fetched with
  | error message => exact proceeds_finish (by decide) (stateOf_status .failed ..) rfl
  | ok =>
    refine .bind (proceeds_of_still (.answer _) rfl) fun previous t _ ht => ?_
    obtain ⟨rfl, -⟩ := ht
    refine .bind (proceeds_write (by decide) (stateOf_status .applying ..)) fun _ t _ ht => ?_
    subst ht
    refine .bind proceeds_activate fun active t _ ht => ?_
    obtain ⟨hnext, hactive⟩ := ht
    cases active with
    | true =>
      obtain rfl := hactive rfl
      exact proceeds_complete
    | false => exact proceeds_rollBack hnext

/-- The gate reports an update as completed or as failed. -/
theorem stateOf_gate {running : Json} {status : Json} (hgate : gate I req running = .ok (some status)) :
    ∃ t ∈ UpdateStatusState.requested.next, stateOf status = some t ∧ t.isTerminal = true := by
  have hgated := @gate_result I req running
  rw [hgate] at hgated
  rcases hgated.2.2 with hfailed | ⟨hcompleted, -⟩
  · exact ⟨.failed, by decide, stateOf_of_state? hfailed, rfl⟩
  · exact ⟨.completed, by decide, stateOf_of_state? hcompleted, rfl⟩

theorem proceeds_processRequest {file : JsonFile} :
    Proceeds .requested (processRequest I file h a) Ended := by
  unfold processRequest
  cases readRequest I file with
  | error message =>
    refine .bind (proceeds_write (t := .failed) (by decide)
      (stateOf_of_state? (state?_invalidStatus message))) fun _ t _ ht => ?_
    subst ht
    refine .bind (proceeds_cleanup rfl) fun _ t _ ht => ?_
    subst ht
    exact .pure (.inr ⟨rfl, .inr rfl⟩)
  | ok req =>
    refine .bind (proceeds_of_still still_runningVersion rfl) fun running t _ ht => ?_
    obtain ⟨rfl, -⟩ := ht
    refine .bind (proceeds_of_still (.answer _) rfl) fun verdict t hgate ht => ?_
    obtain ⟨rfl, -⟩ := ht
    cases verdict with
    | none => exact proceeds_update
    | some status =>
      obtain ⟨t, hnext, hstate, hterminal⟩ := stateOf_gate hgate
      exact proceeds_finish hnext hstate hterminal

theorem proceeds_processPendingRequest :
    Proceeds .requested (processPendingRequest I h a) Ended := by
  refine .bind (proceeds_of_still still_syncRequest rfl) fun found t _ ht => ?_
  obtain ⟨rfl, -⟩ := ht
  cases found with
  | none => exact .pure (.inr ⟨rfl, .inl rfl⟩)
  | some file => exact proceeds_processRequest

theorem stateOf_reconciledStatus {state : String} {requestId current target : Json}
    {live : Option String} : ∃ t ∈ UpdateStatusState.requested.next,
      stateOf (reconciledStatus I state requestId current target live) = some t ∧
        t.isTerminal = true := by
  have hstate : ∀ (t : UpdateStatusState) (current : Json) (progress : ℤ) (message : String)
      (error : Json), stateOf (statusOf requestId t.value current target progress message error
        false) = some t := fun t _ _ _ _ =>
    stateOf_of_state? (by simp [state?, statusOf, Json.get, Dict.get?, Json.text?])
  have hinterrupted : ∃ t ∈ UpdateStatusState.requested.next,
      stateOf (reconciledStatus.interrupted I state requestId current target live) = some t ∧
        t.isTerminal = true := ⟨.failed, by decide, hstate .failed .., rfl⟩
  unfold reconciledStatus
  split
  · split_ifs
    · exact ⟨.completed, by decide, hstate .completed .., rfl⟩
    · exact hinterrupted
  · exact hinterrupted

theorem proceeds_reconcileStartupState :
    Proceeds .requested (reconcileStartupState I h a) Ended := by
  have hnone : Proceeds .requested (pure none : Step (Option Json)) Ended :=
    .pure (.inr ⟨rfl, .inl rfl⟩)
  have hanswer : ∀ r : Except Fault Json, Proceeds .requested (answer r) fun _ t => t = .requested :=
    fun _ => (proceeds_of_still (.answer _) rfl).mono fun _ _ _ ht => ht.1
  unfold reconcileStartupState
  split
  · exact hnone
  · exact hnone
  · refine .bind (hanswer _) fun state t _ ht => ?_
    subst ht
    dsimp only
    split_ifs
    · refine .bind (hanswer _) fun requestId t _ ht => ?_
      subst ht
      refine .bind (hanswer _) fun currentVersion t _ ht => ?_
      subst ht
      refine .bind (hanswer _) fun targetVersion t _ ht => ?_
      subst ht
      refine .bind (proceeds_of_still (.act ⟨rfl, .inl rfl⟩) rfl) fun _ t _ ht => ?_
      obtain ⟨rfl, -⟩ := ht
      obtain ⟨t, hnext, hstate, hterminal⟩ := stateOf_reconciledStatus
      exact proceeds_finish hnext hstate hterminal
    · exact hnone

end

/-! ### The state on disk -/

section
variable {h : Host} {s : UpdateStatusState}

theorem state?_apply_of_silent {e : Event} (hwrote : ∀ status image, e ≠ .wrote status image)
    (hsynced : ∀ file, e ≠ .syncedStatus file) : (h.apply e).state? = h.state? := by
  cases e with
  | wrote status image => exact absurd rfl (hwrote status image)
  | syncedStatus file => exact absurd rfl (hsynced file)
  | saved file => cases file <;> rfl
  | spoiled file => cases file <;> rfl
  | _ => rfl

/-- After the first report of a step, the state on disk is the one that was reported last. -/
theorem state?_run {events : List Event} (hfit : AllFit report Fits .requested events) :
    events.foldl report .requested = .requested ∨
      (h.run events).state? = some (events.foldl report .requested) := by
  induction events using List.reverseRecOn with
  | nil => exact .inl rfl
  | append_singleton events e ih =>
    obtain ⟨hbefore, hfits, -⟩ := allFit_append.1 hfit
    rw [Host.run_append, List.foldl_append, List.foldl_cons, List.foldl_nil]
    change _ ∨ ((h.run events).apply e).state? = _
    cases e with
    | wrote status image =>
      obtain ⟨t, -, hstate⟩ := hfits
      right
      rw [report, hstate]
      exact hstate
    | syncedStatus file => exact .inl hfits
    | _ => exact (ih hbefore).imp id fun hdisk => (state?_apply_of_silent (by simp) (by simp)).trans hdisk

/-- What fits the state that was reported last fits the state on disk. -/
theorem matches_of_fits {e : Event} (hfits : Fits s e) (hdisk : s = .requested ∨ h.state? = some s) :
    Matches h e := by
  have hreported : s ≠ .requested → h.state? = some s := hdisk.resolve_left
  cases e with
  | wrote status image =>
    obtain ⟨t, hnext, hstate⟩ := hfits
    refine ⟨t, hstate, fun hlater => ⟨s, hreported ?_, hnext⟩⟩
    rintro rfl
    exact hlater hnext
  | pulled | lookedUp =>
    obtain rfl : s = .staging := hfits
    exact hreported (by decide)
  | recreated | checked | saved | spoiled =>
    have hcritical : s.isCritical = true := hfits
    refine ⟨s, hreported ?_, hcritical⟩
    rintro rfl
    cases hcritical
  | unlinked | removedInContainer =>
    have hterminal : s.isTerminal = true := hfits
    refine ⟨s, hreported ?_, hterminal⟩
    rintro rfl
    cases hterminal
  | _ => trivial

/-- A crash leaves the last actions out. -/
theorem exists_append_of_survived (crash : Option ℕ) (events : List Event) :
    ∃ lost, Move.events.survived crash events ++ lost = events := by
  cases crash with
  | none => exact ⟨[], List.append_nil _⟩
  | some n => exact ⟨events.drop n, List.take_append_drop n _⟩

theorem matches_of_proceeds {α : Type} {m : Step α} {returns : α → UpdateStatusState → Prop}
    (hm : Proceeds .requested m returns) (crash : Option ℕ) {met : Host × Event}
    (hmem : met ∈ stamped h (Move.events.survived crash m.events)) : Matches met.1 met.2 := by
  obtain ⟨pre, post, hevents, hhost⟩ := mem_stamped hmem
  obtain ⟨lost, hlost⟩ := exists_append_of_survived crash m.events
  have hfit : AllFit report Fits .requested (pre ++ met.2 :: post) :=
    (allFit_append.1 (hevents ▸ hlost ▸ hm.fit)).1
  rw [hhost]
  exact matches_of_fits (fits_of_allFit hfit) (state?_run (allFit_append.1 hfit).1)

end

/-- The supervisor follows the states of an update. -/
theorem followsStates (I : Interpreter) : FollowsStates I where
  steps _ _ := proceeds_processPendingRequest
  restarts _ _ := proceeds_reconcileStartupState
  runs h moves := by
    induction moves generalizing h with
    | nil => exact fun _ hmem => (List.not_mem_nil hmem).elim
    | cons move moves ih =>
      refine List.forall_mem_append.2 ⟨fun met hmem => ?_, ih _⟩
      cases move with
      | process a crash => exact matches_of_proceeds proceeds_processPendingRequest crash hmem
      | reconcile a crash => exact matches_of_proceeds proceeds_reconcileStartupState crash hmem
      | outside after => cases hmem

end AltrStream.Supervisor
