import AltrStream.Go.Strings
import AltrStream.Installer.Containers

/-! # Data volumes and the uninstallation

`ResolveActualDataVolume` finds the volume of an installation, from the container or from
its metadata; `Uninstall` removes the container, and on request that volume.
-/
namespace AltrStream.Installer
open Foundations Go

/-! ### Resolving the volume -/

/-- What Docker answers while the volume is resolved. -/
structure VolumeAnswers where
  /-- The inspection that classifies the container. -/
  checked : Output := {}
  /-- The inspection that its mounts are read from. -/
  inspected : Output := {}
  volume : Text → Output := fun _ => {}

structure MatchedVol where
  name : Text
  hasProject : Bool := false
  project : Text := []
  isExplicit : Bool
  deriving DecidableEq, Repr

/-- The source of a host directory that is mounted at `/app/data` by a line of a compose file. -/
def hostBindSource (line : Text) : Option Text :=
  let line := trimSpace line
  if hasPrefix line "- ".toList && contains line ":/app/data".toList then
    match (trimPrefix line "- ".toList).splitOn ':' with
    | source :: _ :: _ =>
      let source := trimSpace source
      if hasPrefix source ['.'] || hasPrefix source ['/'] || hasPrefix source ['~'] then some source
      else none
    | _ => none
  else none

def hostBind (dir : Dir) : Option Text :=
  dir.compose.read.bind fun content => (lines content).findSome? hostBindSource

/-- The last `COMPOSE_PROJECT_NAME`, or else the name of the directory. -/
def composeProject (dir : Dir) : Text :=
  let named := (dir.env.read.bind fun content =>
    ((lines content).filterMap (valueOf? "COMPOSE_PROJECT_NAME=".toList)).getLast?).getD []
  if named = [] then base (clean dir.path) else named

/-- A mount of a volume or a host directory at `/app/data`. -/
def mountsData (m : Mount) : Bool :=
  clean m.destination = "/app/data".toList && (m.type = "bind".toList || m.type = "volume".toList)

def ambiguousMultiple (reason : Text) (found : List MatchedVol) (dir : Dir) (suffix : Text) : Text :=
  "ambiguous volume ownership: ".toList ++ reason ++ " (".toList ++
    ", ".toList.intercalate (found.map (·.name)) ++ ") ".toList ++ suffix ++ dir.path

section
variable (lib : GoLib) (l : LifecycleManager) (dir : Dir) (name : Text)

/-- `isTest` -/
def isTestInstance : Bool :=
  contains name "test".toList || contains dir.path "test".toList ||
    l.targetContainerName = "altr-stream-test".toList ||
    l.targetDataVolume = "altr_stream_test_data".toList

/-- The guard of the production volume. -/
def prohibited (isTest : Bool) (vol : Text) : Bool :=
  isTest && vol = namedDataVolume && l.targetDataVolume ≠ namedDataVolume

def expectedProject : Text := lib.toLower ((composeProject dir).filter (· ≠ ' '))

/-- `declaredBase` -/
def declaredBase : Text :=
  if detectDataVolume dir = [] then namedDataVolume else detectDataVolume dir

/-- `uniqueCandidates` -/
def uniqueCandidates : List Text :=
  let declared := detectDataVolume dir
  let prefixed := expectedProject lib dir ++ ['_'] ++ declaredBase dir
  let names := (if declared ≠ [] then [declared] else []) ++ [prefixed] ++
    (if declaredBase dir ≠ prefixed then [declaredBase dir] else []) ++
    (if !isTestInstance l dir name ∧ l.targetDataVolume ≠ [] ∧ l.targetDataVolume ≠ declaredBase dir then
      [l.targetDataVolume] else [])
  ((names.map trimSpace).filter (· ≠ [])).eraseDups

/-- What an inspection of a candidate tells, if there is such a volume. -/
def matchVolume (cand : Text) (out : Output) : Option MatchedVol :=
  let declared := detectDataVolume dir
  let isExplicit : Bool := declared ≠ [] && cand = declared
  if out.exitCode ≠ 0 ∨ trimSpace out.stdout = "[]".toList then none
  else
    match lib.volumes out.stdout with
    | some (v :: _) =>
      let project := if v.labels.isSome then lib.toLower (label v.labels projectLabel) else []
      some { name := cand, hasProject := project ≠ [], project, isExplicit }
    | _ =>
      if trimSpace out.stdout ≠ [] then some { name := cand, isExplicit }
      else if cand = declaredBase dir ∨ cand = l.targetDataVolume then
        some { name := cand, isExplicit := isExplicit ||
          (declared = [] && cand = namedDataVolume && !isTestInstance l dir name) }
      else none

/-- The match belongs to this installation. -/
def belongs (m : MatchedVol) : Bool :=
  (m.hasProject && (m.project = expectedProject lib dir || contains m.name (expectedProject lib dir))) ||
    (m.isExplicit && !m.hasProject)

/-- The loop over the candidates. -/
def queryCandidates (volume : Text → Output) : List Text → Traced Command Text (List MatchedVol)
  | [] => pure []
  | cand :: rest => do
    Traced.act (.volumeInspect cand)
    let out := volume cand
    if prohibited l (isTestInstance l dir name) cand then
      Traced.ensure (¬ (out.exitCode = 0 ∧ trimSpace out.stdout ≠ [] ∧ trimSpace out.stdout ≠ "[]".toList))
        ("safety violation: test instance '".toList ++ name ++
          "' cannot be associated with production volume '".toList ++ cand ++ "'".toList)
      queryCandidates volume rest
    else
      let found ← queryCandidates volume rest
      return (matchVolume lib l dir name cand out).toList ++ found

/-- The one match that belongs to the installation; no volume where nothing matches. -/
def selectVolume (found : List MatchedVol) : Except Text Text :=
  let isTest := isTestInstance l dir name
  let aborting := " aborting destructive cleanup".toList
  let chosen : Except Text (Option MatchedVol) :=
    match found.filter (belongs lib dir), found with
    | [], [] => .ok none
    | [], [m] =>
      if prohibited l isTest m.name then
        .error ("safety violation: test instance '".toList ++ name ++
          "' cannot delete production volume '".toList ++ m.name ++ "'".toList)
      else if !m.isExplicit && !m.hasProject then
        .error ("volume '".toList ++ m.name ++ ("' has ambiguous ownership: missing compose project " ++
          "labels or installation metadata associating it with '").toList ++ dir.path ++ "';".toList ++
          aborting ++ " to prevent accidental data loss".toList)
      else .ok (some m)
    | [], _ => .error (ambiguousMultiple "found multiple candidate volumes".toList found dir
        "for installation '".toList ++ "' without verifying labels;".toList ++ aborting)
    | [m], _ => .ok (some m)
    | several, _ => .error (ambiguousMultiple "multiple candidate volumes".toList several dir
        "match installation '".toList ++ "';".toList ++ aborting)
  match chosen with
  | .error e => .error e
  | .ok none => .ok []
  | .ok (some m) =>
    if prohibited l isTest m.name then
      .error ("safety violation: test instance '".toList ++ name ++
        "' cannot be associated with production volume '".toList ++ m.name ++ "'".toList)
    else .ok m.name

def cannotResolve (reason : Text) : Text :=
  "cannot resolve data volume: container '".toList ++ name ++ "' is ".toList ++ reason

/-- The first mount at `/app/data` that an inspection shows. -/
def dataMount (inspected : Output) : Option Mount :=
  if ¬ inspected.Succeeded then none
  else (lib.mountLists inspected.stdout).bind fun all => all.head?.bind (·.find? mountsData)

/-- What the container mounts at `/app/data`, and whether it is a host directory. -/
def mountedVolume (a : VolumeAnswers) : Traced Command Text (Option (Text × Bool)) := do
  Traced.act (.inspect name)
  let conflict := checkSpecificContainerConflict lib l name a.checked
  Traced.ensure (conflict.exists → conflict.isDevContainer = false)
    (cannotResolve name "identified as a development environment".toList)
  Traced.ensure (conflict.exists → conflict.isAltrStream)
    (cannotResolve name "an unrelated third-party container".toList)
  Traced.act (.inspect name)
  match dataMount lib a.inspected with
  | none => return none
  | some m =>
    if m.type = "bind".toList then return some (m.source, true)
    else if prohibited l (isTestInstance l dir name) m.name then
      Traced.raise ("safety violation: test container '".toList ++ name ++
        "' is mounted to production volume '".toList ++ m.name ++ "'".toList)
    else return some (m.name, false)

end

/-- `ResolveActualDataVolume`: the volume, and whether it is a host directory. -/
def resolveActualDataVolume (lib : GoLib) (l : LifecycleManager) (dir : Dir) (targetContainerName : Text)
    (a : VolumeAnswers) : Traced Command Text (Text × Bool) := do
  let name := chooseName (trimSpace targetContainerName) (detectContainerName dir) l.targetContainerName
  match ← mountedVolume lib l dir name a with
  | some mounted => return mounted
  | none =>
    if dir.path = [] then
      Traced.raise ("container '".toList ++ name ++ ("' is absent and no installation directory was " ++
        "specified; volume identity is ambiguous").toList)
    else
      match hostBind dir with
      | some source => return (source, true)
      | none =>
        let found ← queryCandidates lib l dir name a.volume (uniqueCandidates lib l dir name)
        let vol ← Traced.answer (selectVolume lib l dir name found)
        return (vol, false)

/-! ### The volume of an installation whose manager works on the production volume -/

section
variable (lib : GoLib) (l : LifecycleManager) (dir : Dir) (name : Text)

/-- The candidates that exist. -/
def existingVolumes (volume : Text → Output) : List MatchedVol :=
  (uniqueCandidates lib l dir name).filterMap fun cand => matchVolume lib l dir name cand (volume cand)

/-- The match is the only one that belongs to the installation, or it is the only one at all
and has an owner. -/
def Chosen (found : List MatchedVol) (m : MatchedVol) : Prop :=
  found.filter (belongs lib dir) = [m] ∨
    found.filter (belongs lib dir) = [] ∧ found = [m] ∧ (m.isExplicit = true ∨ m.hasProject = true)

/-- The volume is mounted at `/app/data`, or nothing is and it is the one that the metadata tell. -/
def Attributed (a : VolumeAnswers) (vol : Text) : Prop :=
  match dataMount lib a.inspected with
  | some m => m.type ≠ "bind".toList ∧ m.name = vol
  | none => hostBind dir = none ∧
      ∃ m, Chosen lib dir (existingVolumes lib l dir name a.volume) m ∧ m.name = vol

end

section
variable {lib : GoLib} {l : LifecycleManager} {dir : Dir} {name : Text} {a : VolumeAnswers}

/-- The guard never applies. -/
theorem prohibited_eq_false (h : l.targetDataVolume = namedDataVolume) (isTest : Bool) (vol : Text) :
    prohibited l isTest vol = false := by simp [prohibited, h]

theorem only_queryCandidates (volume : Text → Output) (cands : List Text) :
    Traced.Only KeepsVolumes (queryCandidates lib l dir name volume cands) := by
  induction cands with
  | nil => exact .pure _
  | cons cand rest ih =>
    refine .bind (.act nofun) fun _ _ => ?_
    dsimp only
    split
    · exact .bind (.ensure _ _) fun _ _ => ih
    · exact .bind ih fun _ _ => .pure _

theorem result_queryCandidates (h : l.targetDataVolume = namedDataVolume) (volume : Text → Output)
    (cands : List Text) : (queryCandidates lib l dir name volume cands).result =
      .ok (cands.filterMap fun cand => matchVolume lib l dir name cand (volume cand)) := by
  induction cands with
  | nil => rfl
  | cons cand rest ih =>
    unfold queryCandidates
    rw [Traced.bind_of_ok rfl]
    simp only [prohibited_eq_false h, Bool.false_eq_true, if_false]
    rw [Traced.bind_of_ok ih, List.filterMap_cons]
    cases matchVolume lib l dir name cand (volume cand) <;> rfl

theorem selectVolume_eq_ok (h : l.targetDataVolume = namedDataVolume) {found : List MatchedVol}
    {vol : Text} (hvol : vol ≠ []) :
    selectVolume lib l dir name found = .ok vol ↔ ∃ m, Chosen lib dir found m ∧ m.name = vol := by
  unfold selectVolume Chosen
  simp only [prohibited_eq_false h, Bool.false_eq_true, if_false]
  cases hbelong : found.filter (belongs lib dir) with
  | nil =>
    rcases found with _ | ⟨m, _ | ⟨m', rest⟩⟩
    · simpa using hvol.symm
    · cases hexplicit : m.isExplicit <;> cases hproject : m.hasProject <;> simp [hexplicit, hproject]
    · simp
  | cons m rest => cases rest <;> simp

theorem only_mountedVolume : Traced.Only KeepsVolumes (mountedVolume lib l dir name a) := by
  refine .bind (.act nofun) fun _ _ => .bind (.ensure _ _) fun _ _ => .bind (.ensure _ _) fun _ _ =>
    .bind (.act nofun) fun _ _ => ?_
  split
  · exact .pure _
  · split
    · exact .pure _
    · split
      · exact .raise _
      · exact .pure _

theorem result_mountedVolume (h : l.targetDataVolume = namedDataVolume) (hname : name ≠ [])
    {mounted : Option (Text × Bool)} :
    (mountedVolume lib l dir name a).result = .ok mounted ↔ Acceptable lib name a.checked ∧
      (dataMount lib a.inspected).map (fun m =>
        if m.type = "bind".toList then (m.source, true) else (m.name, false)) = mounted := by
  rw [acceptable_iff (l := l) hname, and_assoc]
  simp only [mountedVolume, prohibited_eq_false h, Traced.result_bind_eq_ok, Traced.result_act,
    Traced.result_ensure_eq_ok, exists_const, true_and, Bool.false_eq_true, if_false]
  cases dataMount lib a.inspected with
  | none => simp
  | some m =>
    by_cases hbind : m.type = "bind".toList <;>
      simp only [hbind, if_true, if_false, Traced.result_pure, Option.map_some, Except.ok.injEq]

theorem only_resolveActualDataVolume {targetContainerName : Text} : Traced.Only KeepsVolumes
    (resolveActualDataVolume lib l dir targetContainerName a) := by
  refine .bind only_mountedVolume fun mounted _ => ?_
  cases mounted with
  | some mounted => exact .pure _
  | none =>
    dsimp only
    split
    · exact .raise _
    · split
      · exact .pure _
      · exact .bind (only_queryCandidates _ _) fun _ _ => .bind (.answer _) fun _ _ => .pure _

/-- A volume that is resolved is attributed to the installation. -/
theorem result_resolveActualDataVolume (h : l.targetDataVolume = namedDataVolume) (hdir : dir.path ≠ [])
    (htrim : trimSpace name = name) (hname : name ≠ []) {vol : Text} (hvol : vol ≠ []) :
    (resolveActualDataVolume lib l dir name a).result = .ok (vol, false) ↔
      Acceptable lib name a.checked ∧ Attributed lib l dir name a vol := by
  have hchosen : chooseName (trimSpace name) (detectContainerName dir) l.targetContainerName = name := by
    rw [chooseName, htrim, if_pos hname]
  unfold resolveActualDataVolume Attributed
  rw [hchosen, Traced.result_bind_eq_ok]
  simp only [result_mountedVolume h hname, and_assoc, exists_and_left, if_neg hdir]
  refine and_congr_right fun _ => ?_
  cases dataMount lib a.inspected with
  | some m =>
    by_cases hbind : m.type = "bind".toList <;>
      simp only [hbind, ne_eq, not_true_eq_false, not_false_eq_true, if_true, if_false, Option.map_some,
        exists_eq_left', Traced.result_pure, Except.ok.injEq, Prod.mk.injEq, Bool.true_eq_false, and_false,
        and_true, false_and, true_and]
  | none =>
    cases hostBind dir with
    | some source => simp
    | none => simp [Traced.result_bind_eq_ok, result_queryCandidates h, selectVolume_eq_ok h hvol,
        existingVolumes]

end

end AltrStream.Installer
