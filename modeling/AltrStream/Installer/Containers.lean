import AltrStream.Foundations.Dict
import AltrStream.Foundations.Traced
import AltrStream.Installer.RuntimeFiles

/-! # Containers and their removal

An inspection tells whether a container exists and what it is; `RemoveContainerByName`
and `RemoveContainerForcefullyByName` rely on it before they remove one.
-/
namespace AltrStream.Installer
open Foundations Go

/-! ### The docker command -/

/-- Runs of the docker command, by their arguments. -/
inductive Command where
  | inspect (name : Text)
  /-- `inspect -f` with a format. -/
  | inspectField (format name : Text)
  /-- `rm -f` -/
  | rm (name : Text)
  | unpause (name : Text)
  /-- `stop -t 10` -/
  | stop (name : Text)
  | kill (name : Text)
  | composeDown
  | volumeInspect (name : Text)
  | volumeRm (name : Text)
  deriving DecidableEq, Repr

abbrev KeepsVolumes (command : Command) : Prop := ∀ volume, command ≠ .volumeRm volume

/-- What a run returns; the error is the one of starting or waiting for the process. -/
structure Output where
  stdout : Text := []
  stderr : Text := []
  exitCode : ℤ := 0
  err : Option Text := none
  deriving DecidableEq, Repr

/-- `%w`, or `%v`, of an error. -/
def errorText (err : Option Text) (verb : Char) : Text :=
  err.getD (if verb = 'w' then "%!w(<nil>)".toList else "<nil>".toList)

/-- The inspection wrote a list that is not literally empty. -/
def Output.Succeeded (o : Output) : Prop :=
  o.exitCode = 0 ∧ trimSpace o.stdout ≠ [] ∧ o.stdout ≠ "[]".toList

instance (o : Output) : Decidable o.Succeeded := inferInstanceAs (Decidable (_ ∧ _ ∧ _))

/-! ### Inspected containers -/

structure Mount where
  type : Text
  name : Text
  source : Text
  destination : Text
  deriving DecidableEq, Repr

/-- What `docker inspect` tells of a container, as far as it is read. -/
structure Container where
  id : Text := []
  created : Text := []
  status : Text := []
  running : Bool := false
  health : Option Text := none
  image : Text := []
  labels : Option (Dict Text Text) := none
  /-- The ports with their host ports, in the order in which the map is traversed. -/
  ports : List (Text × List Text) := []
  mounts : List Mount := []
  deriving DecidableEq, Repr

/-- `VolumeInspectResult` -/
structure VolumeInspect where
  name : Text := []
  labels : Option (Dict Text Text) := none
  deriving DecidableEq, Repr

/-- The functions of Go's library that are not followed here: `strings.ToLower`, and
`json.Unmarshal` into the three types that the output of an inspection is read as. -/
structure GoLib where
  toLower : Text → Text
  containers : Text → Option (List Container)
  mountLists : Text → Option (List (List Mount))
  volumes : Text → Option (List VolumeInspect)

/-- A missing label reads as the empty text. -/
def label (labels : Option (Dict Text Text)) (key : Text) : Text :=
  ((labels.bind (·.get? key))).getD []

def projectLabel : Text := "com.docker.compose.project".toList

inductive ConflictType where
  | none
  | container
  deriving DecidableEq, Repr

structure ConflictInfo where
  «exists» : Bool := false
  conflictType : ConflictType := .none
  containerID : Text := []
  containerName : Text := []
  status : Text := []
  image : Text := []
  created : Text := []
  isAltrStream : Bool := false
  isCompatible : Bool := false
  isInstallerOwned : Bool := false
  isDevContainer : Bool := false
  portMapping : Text := []
  healthStatus : Text := []
  remediationHint : Text := []
  details : Text := []
  rawInspect : Text := []
  dataVolumeName : Text := []
  mountType : Text := []
  composeProject : Text := []
  deriving DecidableEq, Repr

section
variable (lib : GoLib) (name : Text) (c : Container)

/-- `isAltr` -/
def isAltrStream : Bool :=
  let imgLower := lib.toLower c.image
  contains imgLower "altr-stream".toList || contains imgLower "helloaltr".toList ||
    (c.image = [] && contains (lib.toLower name) "altr-stream".toList) ||
    label c.labels "com.docker.compose.service".toList = "altr-stream".toList

def managedByInstaller : Bool :=
  label c.labels "com.helloaltr.altr-stream.managed-by".toList = "installer".toList

/-- `isDev` -/
def isDevContainer : Bool :=
  let imgLower := lib.toLower c.image
  let workDir := lib.toLower (label c.labels "com.docker.compose.project.working_dir".toList)
  contains (lib.toLower name) "dev".toList ||
    (c.labels.isSome &&
      (label c.labels "com.helloaltr.altr-stream.environment".toList = "development".toList ||
        contains (lib.toLower (label c.labels projectLabel)) "dev".toList ||
        (!managedByInstaller c && workDir ≠ [] &&
          (contains workDir "01 - altr stream".toList || contains workDir "/src".toList ||
            contains workDir ".git".toList || contains workDir "altr-stream".toList)) ||
        (label c.labels projectLabel ≠ [] && !managedByInstaller c))) ||
    contains imgLower ":dev".toList || contains imgLower "-dev".toList

def isInstallerOwned : Bool :=
  if isDevContainer lib name c then false
  else managedByInstaller c || (isAltrStream lib name c && label c.labels projectLabel = [])

/-- `DefaultVersion` -/
def defaultVersion : Text := "1.1.0".toList

def isCompatible : Bool :=
  let imgLower := lib.toLower c.image
  isAltrStream lib name c && (contains imgLower "0.13.7-alpha".toList ||
    contains imgLower "1.0.0-beta".toList || contains imgLower (lib.toLower defaultVersion) ||
    contains imgLower "latest".toList)

/-- `portStr`: the mapped ports, or else the exposed ones. -/
def portMapping : Text :=
  let cleanPort (port : Text) := trimSuffix port "/tcp".toList
  let mapped := c.ports.flatMap fun (port, hostPorts) =>
    (hostPorts.filter (· ≠ [])).map (· ++ ":".toList ++ cleanPort port)
  let shown := if mapped = [] then c.ports.map (cleanPort ·.1) else mapped
  ", ".toList.intercalate shown

def healthStatus : Text :=
  if c.status = "paused".toList then "paused".toList
  else if c.health.getD [] ≠ [] then c.health.getD []
  else if c.status ≠ [] ∧ c.status ≠ "running".toList then c.status
  else if c.running then "running".toList
  else if c.status ≠ [] then c.status
  else "unknown".toList

def identityText : Text :=
  if !isAltrStream lib name c then "Unrecognized / Third-Party Container".toList
  else if isCompatible lib name c then "Altr Stream (Compatible)".toList
  else "Altr Stream (Incompatible Version)".toList

def remediationHint : Text :=
  if isAltrStream lib name c then
    ("An existing Altr Stream container was detected. Replacing it will preserve your " ++
      "persistent data.").toList
  else
    "A container named '".toList ++ name ++
      "' already exists in Docker. Please stop or remove it before continuing.".toList

def details : Text :=
  joinLines ["Container: ".toList ++ name, "ID: ".toList ++ c.id.take 12, "Status: ".toList ++ c.status,
    "Image: ".toList ++ c.image, "Created: ".toList ++ c.created, "Ports: ".toList ++ portMapping c,
    "Health: ".toList ++ healthStatus c, "Identity: ".toList ++ identityText lib name c]

/-- What is known of an inspected container. -/
def conflictInfo (stdout : Text) : ConflictInfo :=
  let data := c.mounts.find? (·.destination = "/app/data".toList)
  { «exists» := true
    conflictType := .container
    containerID := c.id.take 12
    containerName := name
    status := c.status
    image := c.image
    created := c.created
    isAltrStream := isAltrStream lib name c
    isCompatible := isCompatible lib name c
    isInstallerOwned := isInstallerOwned lib name c
    isDevContainer := isDevContainer lib name c
    portMapping := portMapping c
    healthStatus := healthStatus c
    remediationHint := remediationHint lib name c
    details := details lib name c
    rawInspect := stdout
    dataVolumeName := data.elim [] fun m =>
      if m.type = "volume".toList then m.name else if m.type = "bind".toList then m.source else []
    mountType := data.elim [] Mount.type
    composeProject := label c.labels projectLabel }

end

variable (lib : GoLib) (l : LifecycleManager)

/-- `CheckSpecificContainerConflict`, from what the inspection returned. It never fails. -/
def checkSpecificContainerConflict (targetName : Text) (inspected : Output) : ConflictInfo :=
  let name := if targetName = [] then l.targetContainerName else targetName
  if ¬ inspected.Succeeded then {}
  else
    match lib.containers inspected.stdout with
    | some (c :: _) => conflictInfo lib name c inspected.stdout
    | _ =>
      { «exists» := true, conflictType := .container, containerName := name,
        status := "unknown".toList, rawInspect := inspected.stdout }

/-! ### Removal -/

/-- The name that is inspected. -/
def inspectedName (name : Text) : Text :=
  if trimSpace name = [] then l.targetContainerName else trimSpace name

def cannotRemove (name reason : Text) : Text :=
  "cannot remove container '".toList ++ name ++ "': identified as ".toList ++ reason

def validateContainerForRemoval (name : Text) (inspected : Output) :
    Traced Command Text ConflictInfo := do
  let name := inspectedName l name
  Traced.act (.inspect name)
  let conflict := checkSpecificContainerConflict lib l name inspected
  -- a missing container may be removed again
  Traced.ensure (conflict.exists → ¬ conflict.isDevContainer)
    (cannotRemove name "a development environment".toList)
  Traced.ensure (conflict.exists → conflict.isAltrStream)
    (cannotRemove name "an unrelated third-party container".toList)
  return conflict

/-- `docker rm -f` removed the container, or found none. -/
def Output.Removed (o : Output) : Prop :=
  o.exitCode = 0 ∨ contains o.stderr "No such container".toList ∨ contains o.stderr "not found".toList

instance (o : Output) : Decidable o.Removed := inferInstanceAs (Decidable (_ ∨ _ ∨ _))

def forceRemove (name : Text) (removed : Output) : Traced Command Text Unit := do
  Traced.act (.rm name)
  Traced.ensure removed.Removed ("failed to remove container '".toList ++ name ++ "': ".toList ++
    removed.stderr ++ " (".toList ++ errorText removed.err 'w' ++ ")".toList)

/-- The name, or the one that the manager works on. -/
def usedName (name : Text) : Text := if name = [] then l.targetContainerName else name

def removeContainerByName (name : Text) (inspected removed : Output) : Traced Command Text Unit := do
  let name := usedName l name
  let _ ← validateContainerForRemoval lib l name inspected
  forceRemove name removed

def removeContainerForcefullyByName (name : Text) (inspected removed : Output) :
    Traced Command Text Unit := do
  let name := usedName l name
  let _ ← (validateContainerForRemoval lib l name inspected).mapError fun e =>
    "cannot forcefully remove container '".toList ++ name ++ "': ".toList ++ e
  forceRemove name removed

/-! ### Only an identified container is removed -/

/-- Docker reported that there is no such container. -/
def Output.ReportsMissing (o : Output) : Prop :=
  (o.exitCode = 0 ∧ o.stdout = "[]".toList) ∨
    o.exitCode ≠ 0 ∧ (contains o.stderr "No such object".toList ∨
      contains o.stderr "No such container".toList)

instance (o : Output) : Decidable o.ReportsMissing := inferInstanceAs (Decidable (_ ∨ _))

/-- The inspection succeeded and shows an Altr Stream container that is not for development. -/
def Identifies (name : Text) (o : Output) : Prop :=
  o.Succeeded ∧ ∃ c rest, lib.containers o.stdout = some (c :: rest) ∧
    isAltrStream lib name c = true ∧ isDevContainer lib name c = false

/-- What may be removed after the inspection that returned the output. -/
def RemovalAllowed (inspected : Output) (before : List Command) (command : Command) : Prop :=
  ∀ name, command = .rm name →
    .inspect name ∈ before ∧ (Identifies lib name inspected ∨ inspected.ReportsMissing)

/-- Only what may be removed is, and an inspection that failed for another reason than a
missing container is an error. -/
def RemovesOnlyIdentified (inspected : Output) (m : Traced Command Text Unit) : Prop :=
  Traced.Guarded (RemovalAllowed lib inspected) [] m ∧
    (¬ inspected.Succeeded → ¬ inspected.ReportsMissing →
      (∀ name, .rm name ∉ m.events) ∧ ∃ e, m.result = .error e)

/-- The container was rejected, or the name that is removed was inspected and the inspection
identified it or reported it missing. -/
def SafeToRemove (name : Text) (inspected : Output) : Prop :=
  (inspected.Succeeded ∧ ¬ Identifies lib (inspectedName l (usedName l name)) inspected) ∨
    inspectedName l (usedName l name) = usedName l name ∧
      (Identifies lib (usedName l name) inspected ∨ inspected.ReportsMissing)

section
variable {lib : GoLib} {l : LifecycleManager} {name : Text} {inspected removed : Output}

theorem inspectedName_ne_nil : inspectedName l name ≠ [] := by
  unfold inspectedName
  split_ifs with h
  · exact targetContainerName_ne_nil l
  · exact h

theorem exists_checkSpecificContainerConflict :
    (checkSpecificContainerConflict lib l name inspected).exists = true ↔ inspected.Succeeded := by
  unfold checkSpecificContainerConflict
  by_cases h : inspected.Succeeded
  · simp only [h, not_true_eq_false, if_false, iff_true]
    split <;> rfl
  · simp [h]

/-- The two flags of an existing container tell whether it was identified. -/
theorem identified_checkSpecificContainerConflict (hname : name ≠ []) (h : inspected.Succeeded) :
    ((checkSpecificContainerConflict lib l name inspected).isAltrStream = true ∧
      (checkSpecificContainerConflict lib l name inspected).isDevContainer = false) ↔
        Identifies lib name inspected := by
  unfold checkSpecificContainerConflict Identifies
  rw [if_neg hname, if_neg (not_not.2 h)]
  cases hc : lib.containers inspected.stdout with
  | none => simp
  | some cs =>
    cases cs with
    | nil => simp
    | cons c rest =>
      constructor
      · exact fun hflags => ⟨h, c, rest, rfl, hflags⟩
      · rintro ⟨-, c', rest', hcons, hflags⟩
        cases hcons
        exact hflags

/-- What exists must have been identified. -/
def Acceptable (lib : GoLib) (name : Text) (inspected : Output) : Prop :=
  inspected.Succeeded → Identifies lib name inspected

theorem acceptable_iff (hname : name ≠ []) : Acceptable lib name inspected ↔
    ((checkSpecificContainerConflict lib l name inspected).exists = true →
      (checkSpecificContainerConflict lib l name inspected).isDevContainer = false) ∧
    ((checkSpecificContainerConflict lib l name inspected).exists = true →
      (checkSpecificContainerConflict lib l name inspected).isAltrStream = true) := by
  unfold Acceptable
  rw [exists_checkSpecificContainerConflict, ← forall_and]
  exact forall_congr' fun h => (identified_checkSpecificContainerConflict hname h).symm.trans and_comm

theorem events_validateContainerForRemoval :
    (validateContainerForRemoval lib l name inspected).events = [.inspect (inspectedName l name)] :=
  Traced.events_bind_of_silent fun _ => by simp [Traced.events_bind_of_silent]

theorem only_validateContainerForRemoval :
    Traced.Only KeepsVolumes (validateContainerForRemoval lib l name inspected) :=
  .bind (.act nofun) fun _ _ => .bind (.ensure _ _) fun _ _ => .bind (.ensure _ _) fun _ _ => .pure _

/-- A validation fails exactly for a container that exists and is not identified. -/
theorem result_validateContainerForRemoval {conflict : ConflictInfo} :
    (validateContainerForRemoval lib l name inspected).result = .ok conflict ↔
      Acceptable lib (inspectedName l name) inspected ∧
        checkSpecificContainerConflict lib l (inspectedName l name) inspected = conflict := by
  rw [acceptable_iff (l := l) inspectedName_ne_nil, and_assoc]
  simp [validateContainerForRemoval, Traced.result_bind_eq_ok]

theorem usedName_eq (h : name ≠ []) : usedName l name = name := if_neg h

theorem inspectedName_eq (htrim : trimSpace name = name) (h : name ≠ []) : inspectedName l name = name := by
  rw [inspectedName, htrim, if_neg h]

theorem events_forceRemove : (forceRemove name removed).events = [.rm name] := by
  simp [forceRemove, Traced.events_bind_of_silent]

/-- What both removals do. -/
def Removal (lib : GoLib) (l : LifecycleManager) (name : Text) (inspected : Output)
    (m : Traced Command Text Unit) : Prop :=
  let inspects := .inspect (inspectedName l (usedName l name))
  (¬ Acceptable lib (inspectedName l (usedName l name)) inspected ∧ m.events = [inspects] ∧
    ∃ e, m.result = .error e) ∨
  (Acceptable lib (inspectedName l (usedName l name)) inspected ∧
    m.events = [inspects, .rm (usedName l name)])

/-- A validation, whose error may be wrapped, and the removal. -/
theorem removal_bind {m : Traced Command Text ConflictInfo}
    (hevents : m.events = [.inspect (inspectedName l (usedName l name))])
    (hresult : ∀ conflict, m.result = .ok conflict ↔
      Acceptable lib (inspectedName l (usedName l name)) inspected ∧
        checkSpecificContainerConflict lib l (inspectedName l (usedName l name)) inspected = conflict) :
    Removal lib l name inspected (m >>= fun _ => forceRemove (usedName l name) removed) := by
  cases h : m.result with
  | ok conflict =>
    refine .inr ⟨((hresult conflict).1 h).1, ?_⟩
    rw [Traced.bind_of_ok h, hevents, events_forceRemove, List.singleton_append]
  | error e =>
    refine .inl ⟨fun hacceptable => ?_, ?_⟩
    · have hok := (hresult _).2 ⟨hacceptable, rfl⟩
      rw [h] at hok
      cases hok
    · rw [Traced.bind_of_error h]
      exact ⟨hevents, e, rfl⟩

theorem removal_removeContainerByName :
    Removal lib l name inspected (removeContainerByName lib l name inspected removed) :=
  removal_bind events_validateContainerForRemoval fun _ => result_validateContainerForRemoval

theorem result_removeContainerByName {u : Unit} :
    (removeContainerByName lib l name inspected removed).result = .ok u ↔
    Acceptable lib (inspectedName l (usedName l name)) inspected ∧ removed.Removed := by
  simp [removeContainerByName, forceRemove, Traced.result_bind_eq_ok, result_validateContainerForRemoval]

theorem removal_removeContainerForcefullyByName :
    Removal lib l name inspected (removeContainerForcefullyByName lib l name inspected removed) :=
  removal_bind (by rw [Traced.events_mapError, events_validateContainerForRemoval]) fun _ => by
    rw [Traced.result_mapError_eq_ok, result_validateContainerForRemoval]

theorem guarded_iff_of_events {m : Traced Command Text Unit} {inspected' : Text} {used : Text}
    (h : m.events = [.inspect inspected', .rm used]) :
    Traced.Guarded (RemovalAllowed lib inspected) [] m ↔
      inspected' = used ∧ (Identifies lib used inspected ∨ inspected.ReportsMissing) := by
  unfold Traced.Guarded
  rw [h]
  constructor
  · intro hall
    obtain ⟨hmem, hreason⟩ := hall [.inspect inspected'] (.rm used) [] rfl used rfl
    exact ⟨by simpa [eq_comm] using hmem, hreason⟩
  · rintro ⟨rfl, hreason⟩
    refine Traced.allAllowed_cons nofun (Traced.allAllowed_cons ?_ Traced.allAllowed_nil)
    rintro name ⟨⟩
    exact ⟨by simp, hreason⟩

theorem removesOnlyIdentified_iff {m : Traced Command Text Unit} (h : Removal lib l name inspected m) :
    RemovesOnlyIdentified lib inspected m ↔ SafeToRemove lib l name inspected := by
  unfold RemovesOnlyIdentified SafeToRemove
  rcases h with ⟨hrejected, hevents, hresult⟩ | ⟨haccepted, hevents⟩
  · have hguarded : Traced.Guarded (RemovalAllowed lib inspected) [] m := by
      unfold Traced.Guarded
      rw [hevents]
      exact Traced.allAllowed_cons nofun Traced.allAllowed_nil
    have hrejected' := Classical.not_imp.1 hrejected
    exact iff_of_true ⟨hguarded, fun hfails => absurd hrejected'.1 hfails⟩ (.inl hrejected')
  · rw [guarded_iff_of_events hevents]
    constructor
    · rintro ⟨hsafe, -⟩
      exact .inr hsafe
    · rintro (hrejected | ⟨hname, hreason⟩)
      · exact absurd (haccepted hrejected.1) hrejected.2
      · refine ⟨⟨hname, hreason⟩, fun hfails hunreported => ?_⟩
        exact (hreason.elim (hfails ·.1) hunreported).elim

end

/-- Both functions remove only an identified or missing container exactly if it is safe to. -/
theorem removesOnlyIdentified_removeContainer_iff (lib : GoLib) (l : LifecycleManager) (name : Text)
    (inspected removed : Output) :
    (RemovesOnlyIdentified lib inspected (removeContainerByName lib l name inspected removed) ↔
      SafeToRemove lib l name inspected) ∧
    (RemovesOnlyIdentified lib inspected (removeContainerForcefullyByName lib l name inspected removed) ↔
      SafeToRemove lib l name inspected) :=
  ⟨removesOnlyIdentified_iff removal_removeContainerByName,
    removesOnlyIdentified_iff removal_removeContainerForcefullyByName⟩

/-- The daemon cannot be reached. -/
def daemonDown : Output where
  stderr := "Cannot connect to the Docker daemon at unix:///var/run/docker.sock.".toList
  exitCode := 1

/-- A container is removed although its inspection failed. -/
theorem not_removesOnlyIdentified : ¬ ∀ (lib : GoLib) (l : LifecycleManager) (name : Text)
    (inspected removed : Output),
    RemovesOnlyIdentified lib inspected (removeContainerByName lib l name inspected removed) ∧
    RemovesOnlyIdentified lib inspected
      (removeContainerForcefullyByName lib l name inspected removed) := by
  intro hall
  have hfails := (hall ⟨(·.map Char.toLower), fun _ => none, fun _ => none, fun _ => none⟩ {}
    containerName daemonDown {}).1.2 (by decide) (by decide +kernel)
  exact hfails.1 containerName (by decide)

end AltrStream.Installer
