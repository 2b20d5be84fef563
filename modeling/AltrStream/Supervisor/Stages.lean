import AltrStream.Supervisor.Workflow

/-! # The stages of the workflow

What each stage does and returns: the actions that it can perform, and the answers
that decide how it goes on.
-/
namespace AltrStream.Supervisor
open Python Domain Foundations Traced

/-- The state that a status reports. -/
def state? (status : Json) : Option String :=
  match status.get "state" .null with
  | .ok v => v.text?
  | .error _ => none

@[simp] theorem state?_status (req : Request) (state : String) (current : Json) (progress : ℤ)
    (message : String) (error : Json) (rollback : Bool) :
    state? (req.status state current progress message error rollback) = some state := by
  simp [state?, Request.status, statusOf, Json.get, Dict.get?, Json.text?]

@[simp] theorem state?_invalidStatus (message : String) :
    state? (invalidStatus message) = some "failed" := by
  simp [state?, invalidStatus, Json.get, Dict.get?, Json.text?]

def terminalStates : List String := ["completed", "rolled_back", "failed"]

def IsTerminal (status : Json) : Prop := ∃ state ∈ terminalStates, state? status = some state

theorem isTerminal_status {state : String} (h : state ∈ terminalStates) {req : Request}
    {current : Json} {progress : ℤ} {message : String} {error : Json} {rollback : Bool} :
    IsTerminal (req.status state current progress message error rollback) :=
  ⟨state, h, state?_status ..⟩

/-! ### Free actions -/

/-- Asking, and reporting that the work goes on or has failed, changes nothing else. -/
def Event.Free : Event → Prop
  | .recreated .. | .saved .. | .spoiled .. | .unlinked | .removedInContainer => False
  | .wrote status _ => state? status ≠ some "completed" ∧ state? status ≠ some "rolled_back"
  | _ => True

section
variable {h : Host} {a : Answers} {req : Request} {image : String}

theorem free_syncRequest : Only Event.Free (syncRequest h a) := by
  unfold syncRequest
  split
  · exact .pure _
  · refine .bind (.act trivial) fun _ _ => ?_
    split
    · exact .bind (.act trivial) fun _ _ => .pure _
    · exact .pure _
  · exact .bind (.act trivial) fun _ _ => .pure _
  · exact .pure _

theorem free_runningVersion : Only Event.Free (runningVersion req a) := by
  refine .bind (.act trivial) fun _ _ => ?_
  dsimp only
  split_ifs
  · split
    · exact .raise _
    · exact .pure _
  · exact .pure _

theorem free_pullImage : Only Event.Free (pullImage image a) := by
  unfold pullImage
  refine .bind (.act trivial) fun _ _ => ?_
  cases a.pullTimed with
  | ok => exact .pure _
  | typeError => exact .bind (.act trivial) fun _ _ => .pure _
  | failed => exact .pure _

theorem free_fetchImage : Only Event.Free (fetchImage image a) := by
  refine .bind free_pullImage fun result _ => ?_
  cases result with
  | ok => exact .pure _
  | error =>
    dsimp only
    split_ifs
    · split
      · exact .raise _
      · exact .bind (.act trivial) fun _ _ => .pure _
    · exact .pure _

/-- Removing a request. -/
def Event.Cleans : Event → Prop
  | .unlinked | .removedInContainer => True
  | _ => False

theorem cleans_cleanup {onHost : Bool} : Only Event.Cleans (cleanupRequestFile onHost a) := by
  have hcontainer : Only Event.Cleans
      (if a.removesInContainer then act .removedInContainer else pure () : Step Unit) := by
    split_ifs
    · exact .act trivial
    · exact .pure _
  cases onHost with
  | true => exact .bind (.act trivial) fun _ _ => hcontainer
  | false => exact hcontainer

/-- A final status is written before the request is removed. -/
theorem guarded_finish {allowed : List Event → Event → Prop} {before : List Event} {status : Json}
    {about : Option String} {onHost : Bool} (hcleans : ∀ before e, e.Cleans → allowed before e)
    (hstatus : allowed before (.wrote status about)) :
    Guarded allowed before (finish status about onHost a) :=
  .bind (.act hstatus) fun _ _ => .bind (.of_only cleans_cleanup hcleans) fun _ _ => .pure _

/-! ### Persisting -/

/-- The new content of a file is the old one with the image put in. -/
def Rewrites (h : Host) (image : String) (content : List Char) : ConfigName → Prop
  | .env => ∃ old, h.env = .text old ∧ newEnv image.toList (universalNewlines old) = some content
  | .compose =>
    ∃ old, h.compose = .text old ∧ newCompose image.toList (universalNewlines old) = some content

theorem mem_events_save {file : ConfigName} {image : String} {new : List Char} {e : Event}
    (he : e ∈ (save file image new a).events) :
    e = .saved file image new ∨ ∃ left, e = .spoiled file image left := by
  unfold save at he
  split at he
  · exact .inl (List.mem_singleton.1 he)
  · exact .inr ⟨_, List.mem_singleton.1 he⟩

theorem mem_events_persist {image : String} {e : Event}
    (he : e ∈ (persistImageUpdate image h a).events) :
    (∃ file content, e = .saved file image content ∧ Rewrites h image content file) ∨
      ∃ file left, e = .spoiled file image left := by
  have hor : e ∈ (persistEnv image h a).events ∨ e ∈ (persistCompose image h a).events := by
    unfold persistImageUpdate at he
    cases hresult : (persistEnv image h a).result with
    | ok =>
      rw [bind_of_ok hresult] at he
      exact List.mem_append.1 he
    | error =>
      rw [bind_of_error hresult] at he
      exact .inl he
  rcases hor with he | he
  · unfold persistEnv at he
    split at he
    · cases he
    · cases he
    · cases he
    · rename_i old hold
      split at he
      · cases he
      · rename_i new hnew
        rcases mem_events_save he with rfl | ⟨left, rfl⟩
        · exact .inl ⟨.env, new, rfl, old, hold, hnew⟩
        · exact .inr ⟨.env, left, rfl⟩
  · unfold persistCompose at he
    split at he
    · cases he
    · cases he
    · cases he
    · rename_i old hold
      split at he
      · cases he
      · rename_i new hnew
        split_ifs at he
        · cases he
        · rcases mem_events_save he with rfl | ⟨left, rfl⟩
          · exact .inl ⟨.compose, new, rfl, old, hold, hnew⟩
          · exact .inr ⟨.compose, left, rfl⟩

end

/-! ### What the answers decide -/

section
variable (I : Interpreter) (h : Host) (a : Answers)

/-- The version that runs, if Docker answers. -/
def runningOf (req : Request) : Json :=
  let known := knownVersion req a
  if isUnknown known then
    match a.currentImage with
    | .ok image => taggedVersion known image
    | .error _ => known
  else known

/-- The step works on this request, with this version running. -/
def Processes (req : Request) (running : Json) : Prop :=
  ∃ file, (syncRequest h a).result = .ok (some file) ∧ readRequest I file = .ok req ∧
    (runningVersion req a).result = .ok running

/-- Where both versions can be parsed, the one that runs is not the newer one. -/
def NotNewer (running target : Json) : Prop :=
  ∀ r t, version? I running = some r → version? I target = some t →
    SemVer.gt I.unicode r t = .ok false

/-- The versions can be compared. -/
def Comparable (running target : Json) : Prop :=
  ∀ r t, version? I running = some r → version? I target = some t → r.same t = false →
    ∃ newer, SemVer.gt I.unicode r t = .ok newer

/-- The target is the version that runs already. -/
def AlreadyRuns (running target : Json) : Prop :=
  ∃ r t, version? I running = some r ∧ version? I target = some t ∧ r.same t = true

/-- The version gate stops the request. -/
def Gated (running target : Json) : Prop :=
  ∃ r t, version? I running = some r ∧ version? I target = some t ∧
    (r.same t = true ∨ SemVer.gt I.unicode r t = .ok true)

/-- The pull ends well, perhaps at the second attempt. -/
def Pulls : Prop :=
  match a.pullTimed with
  | .ok => True
  | .typeError _ => a.pullPlain = .ok
  | .failed _ => False

/-- The image is pulled, or found on the host where that is allowed. -/
def Fetches : Prop := Pulls a ∨ a.allowLocalImages = true ∧ a.existsLocally = .ok true

/-- The question for a local image, if it is asked, is answered. -/
def LooksUp : Prop := ¬ Pulls a → a.allowLocalImages = true → ∃ found, a.existsLocally = .ok found

/-- The target is recreated and healthy. -/
def Activates : Prop :=
  a.recreatesTarget = true ∧ a.copiesToTarget = true ∧ a.targetHealthy = true

def SameUpToV (live : Option String) (expected : Json) : Prop :=
  ∃ version, lstripV expected = .ok version ∧ lstripV (.text (live.getD "")) = .ok version

/-- The previous image is recreated and healthy, and the live version is the expected one. -/
def Restores (expected : Json) : Prop :=
  a.recreatesPrevious = true ∧ a.previousHealthy = true ∧ SameUpToV a.rollbackVersion expected

end

section
variable {I : Interpreter} {h : Host} {a : Answers} {req : Request} {image : String}

theorem runningVersion_result :
    match (runningVersion req a).result with
    | .error _ => isUnknown (knownVersion req a) = true ∧ ¬ ∃ image, a.currentImage = .ok image
    | .ok running => running = runningOf a req ∧
        (isUnknown (knownVersion req a) = true → ∃ image, a.currentImage = .ok image) := by
  unfold runningVersion runningOf
  cases hunknown : isUnknown (knownVersion req a) <;> cases a.currentImage <;>
    simp [hunknown, act_bind]

/-- What the gate answers, and where it raises. -/
theorem gate_result {running : Json} :
    match gate I req running with
    | .error _ => ¬ Comparable I running req.targetVersion
    | .ok (some status) => Comparable I running req.targetVersion ∧ Gated I running req.targetVersion ∧
        (state? status = some "failed" ∨
          state? status = some "completed" ∧ AlreadyRuns I running req.targetVersion)
    | .ok none => Comparable I running req.targetVersion ∧ ¬ Gated I running req.targetVersion := by
  unfold gate Comparable Gated AlreadyRuns
  cases hr : version? I running with
  | none => simp
  | some r =>
    cases ht : version? I req.targetVersion with
    | none => simp
    | some t =>
      dsimp only
      cases hsame : r.same t with
      | true => simp [hsame]
      | false => rcases hgt : SemVer.gt I.unicode r t with message | ⟨_ | _⟩ <;> simp [hsame, hgt]

/-- The gate lets no request pass for an older version. -/
theorem notNewer_of_gate {running : Json} (hgate : gate I req running = .ok none) :
    NotNewer I running req.targetVersion := by
  have hpassed := @gate_result I req running
  rw [hgate] at hpassed
  obtain ⟨hcomparable, hgated⟩ := hpassed
  intro r t hr ht
  cases hsame : r.same t with
  | true => exact absurd ⟨r, t, hr, ht, .inl hsame⟩ hgated
  | false =>
    obtain ⟨newer, hnewer⟩ := hcomparable r t hr ht hsame
    cases newer with
    | true => exact absurd ⟨r, t, hr, ht, .inr hnewer⟩ hgated
    | false => exact hnewer

theorem fetchImage_result :
    match (fetchImage image a).result with
    | .error _ => ¬ LooksUp a
    | .ok (.ok ()) => LooksUp a ∧ Fetches a
    | .ok (.error _) => LooksUp a ∧ ¬ Fetches a := by
  unfold fetchImage pullImage LooksUp Fetches Pulls
  cases a.pullTimed <;> cases a.pullPlain <;> cases a.allowLocalImages <;>
    rcases a.existsLocally with _ | ⟨_ | _⟩ <;>
      simp [act_bind, Pulled.toExcept]

theorem activate_result :
    ∃ active, (activate req a).result = .ok active ∧ (active = true ↔ Activates a) := by
  unfold activate Activates
  cases hrecreates : a.recreatesTarget <;> cases hcopies : a.copiesToTarget <;>
    simp [act_bind, writeStatus]

theorem lstripV_ok_iff {v : Json} : (∃ s, lstripV v = .ok s) ↔ v.isText = true := by
  cases v <;> simp [lstripV, Json.isText, Json.text?]

theorem restore_result {expected : Json} {previous : String} :
    (restore expected previous a).result = .ok (a.recreatesPrevious && a.previousHealthy,
      if a.recreatesPrevious then a.rollbackVersion else none) := by
  unfold restore
  cases hrecreates : a.recreatesPrevious <;> simp [act_bind]

theorem restores_iff {expected : Json} {version : String} (hexpected : lstripV expected = .ok version) :
    Restores a expected ↔ (a.recreatesPrevious && a.previousHealthy) = true ∧
      lstripV (.text (a.rollbackVersion.getD "")) = .ok version := by
  simp only [Restores, SameUpToV, hexpected, Except.ok.injEq, exists_eq_left', Bool.and_eq_true,
    and_assoc]

end

end AltrStream.Supervisor
