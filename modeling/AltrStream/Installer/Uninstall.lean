import AltrStream.Installer.Volumes

/-! # Uninstalling

`Uninstall` stops and removes the container of a target directory, removes the files there
and, if data are to be deleted, the data volume.
-/
namespace AltrStream.Installer
open Foundations Go

/-- What the calls of an uninstallation are answered, call by call. -/
structure UninstallAnswers where
  engineRunning : Bool := true
  /-- The inspection before anything is done. -/
  validated : Output := {}
  volumes : VolumeAnswers := {}
  down : Output := {}
  stopped : Output := {}
  killed : Output := {}
  /-- The polls until the deadline, and the error of a cancellation in the wait after each. -/
  polls : List (Output × Option Text) := []
  /-- The inspection before the container is removed. -/
  revalidated : Output := {}
  removed : Output := {}
  status : Output := {}
  volumeRemoved : Output := {}
  removeAllFails : Option Text := none

/-- `RemoveNamedDataVolume` -/
def removeNamedDataVolume (l : LifecycleManager) (volName : Text) (removed : Output) :
    Traced Command Text Unit := do
  let volName := if trimSpace volName = [] then l.targetDataVolume else trimSpace volName
  let isTest := contains l.targetContainerName "test".toList ||
    l.targetContainerName = "altr-stream-test".toList || l.targetDataVolume = "altr_stream_test_data".toList
  Traced.ensure (prohibited l isTest volName = false) ("safety violation: test instance '".toList ++
    l.targetContainerName ++ "' is prohibited from removing production volume '".toList ++ volName ++
    "'".toList)
  Traced.act (.volumeRm volName)
  Traced.ensure (removed.exitCode = 0 ∨ contains removed.stderr "no such volume".toList ∨
      contains removed.stderr "not found".toList)
    ("failed to remove volume '".toList ++ volName ++ "': ".toList ++ removed.stderr ++ " (".toList ++
      errorText removed.err 'w' ++ ")".toList)

/-- The container is reported as running. -/
def Output.stillRunning (o : Output) : Bool :=
  o.exitCode = 0 && trimSpace o.stdout = "true".toList

/-- The polling until the container is stopped. -/
def waitStopped (name : Text) : List (Output × Option Text) → Traced Command Text Unit
  | [] => pure ()
  | (o, cancelled) :: rest => do
    Traced.act (.inspectField "\x7b\x7b.State.Running\x7d\x7d".toList name)
    Traced.runIf o.stillRunning do
      match cancelled with
      | some e => Traced.raise e
      | none => waitStopped name rest

/-- Neither a success nor a report that nothing is running. -/
def Output.StopFailed (o : Output) : Prop :=
  ¬ (o.exitCode = 0 ∨ contains o.stderr "No such container".toList ∨ contains o.stderr "not running".toList)

instance (o : Output) : Decidable o.StopFailed := inferInstanceAs (Decidable (¬ (_ ∨ _ ∨ _)))

def runs (status : Text) : Prop :=
  status = "running".toList ∨ status = "restarting".toList ∨ status = "paused".toList

instance (status : Text) : Decidable (runs status) := inferInstanceAs (Decidable (_ ∨ _ ∨ _))

/-- The compose file is there to stop the deployment with. -/
def stoppedByCompose (dir : Dir) : Prop := dir.path ≠ [] ∧ dir.compose ≠ .absent

instance (dir : Dir) : Decidable (stoppedByCompose dir) := inferInstanceAs (Decidable (_ ∧ _))

/-- Step 5: a container that runs, restarts or is paused is stopped. -/
def stopGracefully (dir : Dir) (name status : Text) (a : UninstallAnswers) : Traced Command Text Unit :=
  Traced.runIf (runs status) do
    Traced.runIf (status = "paused".toList) (Traced.act (.unpause name))
    Traced.runIf (stoppedByCompose dir) (Traced.act .composeDown)
    Traced.runIf (¬ (stoppedByCompose dir ∧ a.down.exitCode = 0)) do
      Traced.act (.stop name)
      Traced.runIf a.stopped.StopFailed do
        Traced.act (.kill name)
        Traced.ensure (¬ a.killed.StopFailed) ("failed to stop container '".toList ++ name ++ "': ".toList ++
          a.stopped.stderr ++ " (".toList ++ errorText a.stopped.err 'v' ++ ")".toList)
    waitStopped name a.polls

/-- Step 6: the container is removed, and looked for once more. -/
def removeVerified (lib : GoLib) (l : LifecycleManager) (name : Text) (a : UninstallAnswers) :
    Traced Command Text Unit := do
  (removeContainerByName lib l name a.revalidated a.removed).mapError fun e =>
    "failed to remove container '".toList ++ name ++ "': ".toList ++ e
  Traced.act (.inspectField "\x7b\x7b.State.Status\x7d\x7d".toList name)
  Traced.ensure (¬ (a.status.exitCode = 0 ∧ trimSpace a.status.stdout ≠ [])) ("container '".toList ++ name ++
    "' is still present after removal attempt (status=".toList ++ trimSpace a.status.stdout ++ ")".toList)

/-- The removal of the volume in step 8, with its error. -/
def volumeCleanup (l : LifecycleManager) (deleteData : Bool) (volume : Text × Bool) (removed : Output) :
    Traced Command Text (List Text) := do
  if deleteData ∧ volume.1 ≠ [] ∧ volume.2 = false then
    match ← (removeNamedDataVolume l volume.1 removed).attempt with
    | .ok _ => pure []
    | .error e => pure ["volume removal failed for '".toList ++ volume.1 ++ "': ".toList ++ e]
  else pure []

/-- Steps 7 and 8: the files, the data volume and the directory with everything in it. -/
def cleanUp (l : LifecycleManager) (dir : Dir) (deleteData : Bool) (volume : Text × Bool)
    (a : UninstallAnswers) : Traced Command Text Unit := do
  let volumeErrors ← volumeCleanup l deleteData volume a.volumeRemoved
  let directoryErrors :=
    if deleteData ∧ dir.path ≠ [] then
      a.removeAllFails.toList.map ("directory cleanup failed for '".toList ++ dir.path ++ "': ".toList ++ ·)
    else []
  Traced.ensure (volumeErrors ++ directoryErrors = []) ("uninstall completed with errors:\n- ".toList ++
    "\n- ".toList.intercalate (volumeErrors ++ directoryErrors))

/-- The container that the target directory belongs to. -/
def uninstalledName (l : LifecycleManager) (dir : Dir) : Text :=
  if detectContainerName dir = [] then l.targetContainerName else detectContainerName dir

/-- `LifecycleManager.Uninstall`, with the target directory resolved. -/
def uninstall (lib : GoLib) (l : LifecycleManager) (dir : Dir) (deleteData : Bool)
    (a : UninstallAnswers) : Traced Command Text Unit := do
  let name := uninstalledName l dir
  Traced.ensure a.engineRunning ("Docker daemon is not running: please ensure Docker Desktop is " ++
    "running before uninstalling").toList
  let conflict ← (validateContainerForRemoval lib l name a.validated).mapError fun e =>
    "cannot uninstall: ".toList ++ e
  let volume ←
    if deleteData then
      (resolveActualDataVolume lib l dir name a.volumes).mapError fun e =>
        "destructive uninstall aborted: ".toList ++ e
    else pure ([], false)
  Traced.runIf conflict.exists do
    stopGracefully dir name conflict.status a
    removeVerified lib l name a
  cleanUp l dir deleteData volume a

/-! ### The production volume of a test instance -/

section
variable (lib : GoLib) (dir : Dir) (a : UninstallAnswers)

/-- A test instance is uninstalled with its data and the production volume stays. -/
def SparesProduction : Prop :=
  contains (uninstalledName {} dir) "test".toList = true →
    .volumeRm namedDataVolume ∉ (uninstall lib {} dir true a).events

/-- A running container stops, and nobody cancels the waiting. -/
def Stops (status : Text) : Prop :=
  runs status →
    ((stoppedByCompose dir ∧ a.down.exitCode = 0) ∨ ¬ a.stopped.StopFailed ∨ ¬ a.killed.StopFailed) ∧
      ∀ poll ∈ a.polls.takeWhile (·.1.stillRunning), poll.2 = none

/-- The container is removed and gone. -/
def Goes : Prop :=
  Acceptable lib (uninstalledName {} dir) a.revalidated ∧ a.removed.Removed ∧
    ¬ (a.status.exitCode = 0 ∧ trimSpace a.status.stdout ≠ [])

/-- The uninstallation gets as far as the data volume. -/
def ReachesVolume : Prop :=
  let name := uninstalledName {} dir
  a.engineRunning = true ∧ Acceptable lib name a.validated ∧ Acceptable lib name a.volumes.checked ∧
    (a.validated.Succeeded →
      Stops dir a (checkSpecificContainerConflict lib {} name a.validated).status ∧ Goes lib dir a)

/-- A volume by the name of the production volume, or by a blank name. -/
def ProductionName (vol : Text) : Prop :=
  vol ≠ [] ∧ (trimSpace vol = [] ∨ trimSpace vol = namedDataVolume)

/-- The production volume is the one that is attributed to the installation. -/
def ProductionAttributed : Prop :=
  ∃ vol, Attributed lib {} dir (uninstalledName {} dir) a.volumes vol ∧ ProductionName vol

end

section
variable {lib : GoLib} {l : LifecycleManager} {dir : Dir} {name status : Text} {a : UninstallAnswers}

theorem only_waitStopped (polls : List (Output × Option Text)) :
    Traced.Only KeepsVolumes (waitStopped name polls) := by
  induction polls with
  | nil => exact .pure _
  | cons poll polls ih =>
    obtain ⟨o, cancelled⟩ := poll
    refine .bind (.act nofun) fun _ _ => .runIf fun _ => ?_
    cases cancelled with
    | none => exact ih
    | some e => exact .raise e

theorem result_waitStopped (polls : List (Output × Option Text)) {u : Unit} :
    (waitStopped name polls).result = .ok u ↔
      ∀ poll ∈ polls.takeWhile (·.1.stillRunning), poll.2 = none := by
  induction polls with
  | nil => simp [waitStopped]
  | cons poll polls ih =>
    obtain ⟨o, cancelled⟩ := poll
    cases hrunning : o.stillRunning <;> cases cancelled <;>
      simp [waitStopped, Traced.result_bind_eq_ok, hrunning, ih]

theorem only_stopGracefully :
    Traced.Only KeepsVolumes (stopGracefully dir name status a) :=
  .runIf fun _ => .bind (.runIf fun _ => .act nofun) fun _ _ =>
    .bind (.runIf fun _ => .act nofun) fun _ _ =>
    .bind (.runIf fun _ => .bind (.act nofun) fun _ _ => .runIf fun _ =>
      .bind (.act nofun) fun _ _ => .ensure _ _) fun _ _ => only_waitStopped _

theorem result_stopGracefully {u : Unit} :
    (stopGracefully dir name status a).result = .ok u ↔ Stops dir a status := by
  simp only [stopGracefully, Stops, Traced.result_runIf_eq_ok, Traced.result_bind_eq_ok, Traced.result_act,
    Traced.result_ensure_eq_ok, result_waitStopped]
  refine forall_congr' fun _ => ?_
  by_cases h : stoppedByCompose dir ∧ a.down.exitCode = 0 <;> by_cases hs : a.stopped.StopFailed <;>
    by_cases hk : a.killed.StopFailed <;> simp [h, hs, hk]

theorem trimSpace_valueOf? {key line value : Text} (h : valueOf? key line = some value) :
    trimSpace value = value := by
  obtain ⟨v, -, rfl⟩ := Option.map_eq_some_iff.1 h
  exact trimSpace_trimSpace v

theorem trimSpace_firstValue {key content value : Text} (h : firstValue key content = some value) :
    trimSpace value = value := by
  obtain ⟨line, -, hline⟩ := List.mem_filterMap.1 (List.mem_of_find?_eq_some h)
  exact trimSpace_valueOf? hline

theorem trimSpace_detectContainerName : trimSpace (detectContainerName dir) = detectContainerName dir := by
  unfold detectContainerName
  split_ifs
  · rfl
  · cases h : (dir.env.read.bind (firstValue containerNameKey)).or
        (dir.compose.read.bind (firstValue "container_name:".toList)) with
    | none => rfl
    | some name =>
      rcases Option.or_eq_some_iff.1 h with henv | ⟨-, hcompose⟩
      · obtain ⟨content, -, hvalue⟩ := Option.bind_eq_some_iff.1 henv
        exact trimSpace_firstValue hvalue
      · obtain ⟨content, -, hvalue⟩ := Option.bind_eq_some_iff.1 hcompose
        exact trimSpace_firstValue hvalue

theorem trimSpace_uninstalledName : trimSpace (uninstalledName {} dir) = uninstalledName {} dir := by
  unfold uninstalledName
  split_ifs
  · decide
  · exact trimSpace_detectContainerName

theorem uninstalledName_ne_nil : uninstalledName {} dir ≠ [] := by
  unfold uninstalledName
  split_ifs with h
  · exact targetContainerName_ne_nil _
  · exact h

/-- Without a directory the default container is meant. -/
theorem path_ne_nil_of_test (h : contains (uninstalledName {} dir) "test".toList = true) : dir.path ≠ [] := by
  intro hpath
  rw [uninstalledName, detectContainerName, if_pos hpath, if_pos rfl] at h
  exact absurd h (by decide)

theorem only_removeVerified : Traced.Only KeepsVolumes (removeVerified lib l name a) := by
  refine .bind (.mapError ?_) fun _ _ => .bind (.act nofun) fun _ _ => .ensure _ _
  exact .bind only_validateContainerForRemoval fun _ _ => .bind (.act nofun) fun _ _ => .ensure _ _

theorem result_removeVerified {u : Unit} :
    (removeVerified lib {} (uninstalledName {} dir) a).result = .ok u ↔ Goes lib dir a := by
  simp [removeVerified, Goes, Traced.result_bind_eq_ok, result_removeContainerByName, and_assoc,
    usedName_eq uninstalledName_ne_nil, inspectedName_eq trimSpace_uninstalledName uninstalledName_ne_nil]

theorem mem_events_removeNamedDataVolume (h : l.targetDataVolume = namedDataVolume) {vol : Text}
    {removed : Output} : .volumeRm namedDataVolume ∈ (removeNamedDataVolume l vol removed).events ↔
      trimSpace vol = [] ∨ trimSpace vol = namedDataVolume := by
  simp only [removeNamedDataVolume, prohibited_eq_false h, Traced.mem_events_bind, Traced.events_ensure,
    Traced.result_ensure_eq_ok, Traced.events_act, List.mem_singleton, Command.volumeRm.injEq, h,
    List.not_mem_nil, and_false, exists_false, or_false, false_or, exists_const, true_and]
  by_cases hblank : trimSpace vol = []
  · simp only [hblank, if_true, true_or]
  · simp only [hblank, if_false, false_or, eq_comm]

theorem mem_events_cleanUp (h : l.targetDataVolume = namedDataVolume) {volume : Text × Bool} :
    .volumeRm namedDataVolume ∈ (cleanUp l dir true volume a).events ↔
      volume.2 = false ∧ ProductionName volume.1 := by
  have hevents : (cleanUp l dir true volume a).events =
      (volumeCleanup l true volume a.volumeRemoved).events :=
    Traced.events_bind_of_silent fun _ => Traced.events_ensure ..
  rw [hevents, volumeCleanup, ProductionName, ← mem_events_removeNamedDataVolume h]
  by_cases hne : volume.1 = [] <;> cases hbind : volume.2 <;>
    simp only [hne, ne_eq, not_true_eq_false, not_false_eq_true, Bool.true_eq_false, and_false, and_true,
      true_and, false_and, if_false, if_true, Traced.events_pure, List.not_mem_nil]
  rw [Traced.events_bind_of_silent fun r => by cases r <;> rfl, Traced.events_attempt]

theorem mem_events_halt_cleanUp {volume : Text × Bool} :
    .volumeRm namedDataVolume ∈ (do
      Traced.runIf ((checkSpecificContainerConflict lib {} (uninstalledName {} dir) a.validated).exists = true) do
        stopGracefully dir (uninstalledName {} dir) status a
        removeVerified lib {} (uninstalledName {} dir) a
      cleanUp {} dir true volume a : Traced Command Text Unit).events ↔
    (a.validated.Succeeded → Stops dir a status ∧ Goes lib dir a) ∧ volume.2 = false ∧
      ProductionName volume.1 := by
  rw [Traced.Only.mem_bind (.runIf fun _ => .bind only_stopGracefully fun _ _ => only_removeVerified)
    fun h => h _ rfl]
  simp only [Traced.result_runIf_eq_ok, exists_checkSpecificContainerConflict, Traced.result_bind_eq_ok,
    result_stopGracefully, result_removeVerified, mem_events_cleanUp (l := {}) rfl, exists_const]

end

/-- The production volume stays exactly if the uninstallation of a test instance does not get
as far as the volume, or another volume is attributed to the instance. -/
theorem sparesProduction_iff (lib : GoLib) (dir : Dir) (a : UninstallAnswers) :
    SparesProduction lib dir a ↔ (contains (uninstalledName {} dir) "test".toList = true →
      ¬ (ReachesVolume lib dir a ∧ ProductionAttributed lib dir a)) := by
  unfold SparesProduction
  refine forall_congr' fun htest => not_congr ?_
  have hpath := path_ne_nil_of_test htest
  have hname := inspectedName_eq (l := {}) (@trimSpace_uninstalledName dir) uninstalledName_ne_nil
  have hno : ¬ KeepsVolumes (.volumeRm namedDataVolume) := fun h => h _ rfl
  unfold uninstall ReachesVolume ProductionAttributed
  rw [Traced.Only.mem_bind (.ensure _ _) hno]
  simp only [Traced.result_ensure_eq_ok, exists_const, if_true, and_assoc]
  refine and_congr_right fun _ => ?_
  rw [Traced.Only.mem_bind (.mapError only_validateContainerForRemoval) hno]
  simp only [Traced.result_mapError_eq_ok, result_validateContainerForRemoval, hname, and_assoc,
    exists_and_left, exists_eq_left']
  refine and_congr_right fun _ => ?_
  rw [Traced.Only.mem_bind (.mapError only_resolveActualDataVolume) hno]
  have hresolved := fun {vol} => @result_resolveActualDataVolume lib {} dir (uninstalledName {} dir) a.volumes
    rfl hpath trimSpace_uninstalledName uninstalledName_ne_nil vol
  simp only [Traced.result_mapError_eq_ok, mem_events_halt_cleanUp]
  constructor
  · rintro ⟨⟨vol, isHostBind⟩, hresult, hhalts, rfl, hproduction⟩
    obtain ⟨hchecked, hattributed⟩ := (hresolved hproduction.1).1 hresult
    exact ⟨hchecked, hhalts, vol, hattributed, hproduction⟩
  · rintro ⟨hchecked, hhalts, vol, hattributed, hproduction⟩
    exact ⟨(vol, false), (hresolved hproduction.1).2 ⟨hchecked, hattributed⟩, hhalts, rfl, hproduction⟩

/-- The container and the metadata that the uninstallation finds are test ones; the declared
volume is the production volume. -/
def testInstance : Dir where
  path := "/opt/altr-test".toList
  env := .text (joinLines ["ALTR_STREAM_CONTAINER_NAME=altr-stream-test".toList,
    "ALTR_STREAM_DATA_VOLUME=altr_stream_data".toList])

/-- No container is left, and the production volume exists. -/
def volumeOnly : UninstallAnswers where
  validated := { stderr := "Error: No such object: altr-stream-test".toList, exitCode := 1 }
  volumes :=
    { checked := { stderr := "Error: No such object: altr-stream-test".toList, exitCode := 1 }
      inspected := { stderr := "Error: No such object: altr-stream-test".toList, exitCode := 1 }
      volume := fun vol =>
        if vol = namedDataVolume then
          { stdout := "[\x7b\"Name\": \"altr_stream_data\", \"Labels\": null\x7d]".toList }
        else { stderr := "Error: no such volume".toList, exitCode := 1 } }

/-- The library on the outputs of this run. -/
def productionLib : GoLib where
  toLower := (·.map Char.toLower)
  containers := fun _ => none
  mountLists := fun _ => none
  volumes := fun out =>
    if out = (volumeOnly.volumes.volume namedDataVolume).stdout then some [{ name := namedDataVolume }] else none

/-- A test instance deletes the production volume. -/
theorem not_sparesProduction : ¬ ∀ (lib : GoLib) (dir : Dir) (a : UninstallAnswers),
    SparesProduction lib dir a := by
  intro hall
  exact hall productionLib testInstance volumeOnly (by decide) (by decide)

end AltrStream.Installer
