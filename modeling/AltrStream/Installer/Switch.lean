import AltrStream.Installer.RuntimeFiles

/-! # Switching the version

`SwitchVersion` records both runtime files, writes the new ones and replaces the
container. Where that fails, it writes back what it has recorded.
-/
namespace AltrStream.Installer
open Foundations Go

/-- How the commands and the file operations of a switch end. -/
structure SwitchAnswers where
  /-- The image is valid and available, Docker is ready, the image is on the host. -/
  validated : Bool := true
  writes : Writes := {}
  removed : Bool := true
  started : Bool := true
  healthy : Bool := true
  /-- The rolled-back container. -/
  restarted : Bool := true
  restoredHealthy : Bool := true
  restoreComposeFails : Option FileState := none
  restoreEnvFails : Option FileState := none

inductive RollbackError where
  | noPrevious
  | restart
  | health
  deriving DecidableEq, Repr

inductive SwitchError where
  | validation
  | runtimeFiles (e : WriteError)
  | removal
  | start (rollback : Option RollbackError)
  | health (rollback : Option RollbackError)
  deriving DecidableEq, Repr

/-- Both files with what was recorded of them; what was not there to read is left alone. -/
def restoreFiles (prevCompose prevEnv : Option Text) (a : SwitchAnswers) (dir : Dir) : Dir :=
  { dir with
    compose := prevCompose.elim dir.compose (written · a.restoreComposeFails)
    env := prevEnv.elim dir.env (written · a.restoreEnvFails) }

def rollbackVersion (prevCompose prevEnv : Option Text) (a : SwitchAnswers) (dir : Dir) :
    Option RollbackError × Dir :=
  let error :=
    if prevCompose.isNone then some .noPrevious
    else if !a.restarted then some .restart
    else if !a.restoredHealthy then some .health
    else none
  (error, restoreFiles prevCompose prevEnv a dir)

/-- The configuration with its defaults. -/
def resolveSwitch (l : LifecycleManager) (cfg : InstallConfig) (dir : Dir) : InstallConfig :=
  { cfg with
    port := if cfg.port.1 ≤ 0 then ⟨defaultPort, defaultPort_bounds⟩ else cfg.port
    containerName := cName l dir cfg
    dataVolume := volName l dir cfg }

/-- The manager works on the names of the configuration. -/
def switchManager (cfg : InstallConfig) : LifecycleManager :=
  { containerName := cfg.containerName, dataVolume := cfg.dataVolume }

/-- `SwitchVersion`: its error, if there is one, and the directory afterwards. -/
def switchVersion (lower : Text → Text) (l : LifecycleManager) (cfg : InstallConfig)
    (a : SwitchAnswers) (dir : Dir) : Option SwitchError × Dir :=
  if !a.validated then (some .validation, dir)
  else
    let cfg := resolveSwitch l cfg dir
    let prevCompose := dir.compose.read
    let prevEnv := dir.env.read
    match writeRuntimeFiles lower (switchManager cfg) cfg dir a.writes with
    | (some e, dir) => (some (.runtimeFiles e), dir)
    | (none, dir) =>
      if !a.removed then (some .removal, restoreFiles prevCompose prevEnv a dir)
      else if !a.started then
        let (rollback, dir) := rollbackVersion prevCompose prevEnv a dir
        (some (.start rollback), dir)
      else if !a.healthy then
        let (rollback, dir) := rollbackVersion prevCompose prevEnv a dir
        (some (.health rollback), dir)
      else (none, dir)

section
variable (lower : Text → Text) (l : LifecycleManager) (cfg : InstallConfig) (a : SwitchAnswers)
  (dir : Dir)

/-- An error after the writing has started leaves both files as they were. -/
def UndoneOnError : Prop :=
  ∀ e, (switchVersion lower l cfg a dir).1 = some e → e ≠ .validation →
    (switchVersion lower l cfg a dir).2 = dir

/-- The compose file that a switch renders. -/
def switchedCompose : Text :=
  let cfg := resolveSwitch l cfg dir
  composeContent lower (switchManager cfg) cfg dir

/-- `WriteRuntimeFiles` fails. -/
def WriteFails (w : Writes) : Prop :=
  w.mkdirFails = true ∨ w.composeFails.isSome = true ∨ dir.env = .absent ∧ w.envFails.isSome = true

/-- It fails before it changes anything: no directory, or a write that leaves the file alone. -/
def HarmlessFailure (compose : Text) (w : Writes) : Prop :=
  w.mkdirFails = true ∨ w.composeFails = some dir.compose ∨
    w.composeFails = none ∧ dir.env = .absent ∧ w.envFails = some .absent ∧ dir.compose = .text compose

/-- Everything goes well, or there are files to go back to. -/
def Recoverable : Prop :=
  a.validated = true →
    (WriteFails dir a.writes → HarmlessFailure dir (switchedCompose lower l cfg dir) a.writes) ∧
    (¬ WriteFails dir a.writes → (a.removed = true ∧ a.started = true ∧ a.healthy = true) ∨
      dir.compose.read ≠ none ∧ dir.env ≠ .absent)

end

section
variable {lower : Text → Text} {l : LifecycleManager} {cfg : InstallConfig} {a : SwitchAnswers}
  {dir : Dir} {w : Writes}

theorem writeRuntimeFiles_fails_iff :
    (writeRuntimeFiles lower l cfg dir w).1 ≠ none ↔ WriteFails dir w := by
  unfold writeRuntimeFiles WriteFails
  cases w.mkdirFails <;> cases w.composeFails <;> cases dir.env <;> cases w.envFails <;> simp

/-- A failing `WriteRuntimeFiles` restores nothing. -/
theorem writeRuntimeFiles_unchanged_iff (hfails : WriteFails dir w) :
    (writeRuntimeFiles lower l cfg dir w).2 = dir ↔
      HarmlessFailure dir (composeContent lower l cfg dir) w := by
  obtain ⟨path, compose, env⟩ := dir
  unfold writeRuntimeFiles HarmlessFailure
  unfold WriteFails at hfails
  cases hmkdir : w.mkdirFails with
  | true => simp
  | false =>
    cases hcompose : w.composeFails with
    | some left => simp [@eq_comm _ left]
    | none =>
      obtain ⟨rfl, henv⟩ : env = .absent ∧ w.envFails.isSome = true := by simpa [hmkdir, hcompose] using hfails
      obtain ⟨left, hleft⟩ := Option.isSome_iff_exists.1 henv
      simp [hleft, written, and_comm, @eq_comm _ _ compose]

/-- Files that were written can be taken back exactly if they replaced others. -/
theorem restoreFiles_eq_iff (hfails : ¬ WriteFails dir w) (hcompose : a.restoreComposeFails = none)
    (henv : a.restoreEnvFails = none) :
    restoreFiles dir.compose.read dir.env.read a (writeRuntimeFiles lower l cfg dir w).2 = dir ↔
      dir.compose.read ≠ none ∧ dir.env ≠ .absent := by
  obtain ⟨path, compose, env⟩ := dir
  unfold WriteFails at hfails
  obtain ⟨hmkdir, hnone, hwrote⟩ : w.mkdirFails = false ∧ w.composeFails = none ∧
      (env = .absent → w.envFails = none) := by simpa [not_or] using hfails
  cases compose <;> cases env <;>
    simp [writeRuntimeFiles, restoreFiles, FileState.read, written, hmkdir, hnone, hcompose, henv, hwrote]

end

/-- A switch that fails has undone its changes exactly if it was recoverable. -/
theorem undoneOnError_iff (lower : Text → Text) (l : LifecycleManager) (cfg : InstallConfig)
    (a : SwitchAnswers) (dir : Dir)
    (hrestore : a.restoreComposeFails = none ∧ a.restoreEnvFails = none) :
    UndoneOnError lower l cfg a dir ↔ Recoverable lower l cfg a dir := by
  unfold UndoneOnError Recoverable
  cases hvalid : a.validated with
  | false => simp [switchVersion, hvalid]
  | true =>
    have hfails := @writeRuntimeFiles_fails_iff lower (switchManager (resolveSwitch l cfg dir))
      (resolveSwitch l cfg dir) dir a.writes
    rcases hwrite : writeRuntimeFiles lower (switchManager (resolveSwitch l cfg dir))
      (resolveSwitch l cfg dir) dir a.writes with ⟨_ | e, after⟩
    · have hnot : ¬ WriteFails dir a.writes := by simpa [hwrite] using hfails
      have hundone := @restoreFiles_eq_iff lower (switchManager (resolveSwitch l cfg dir))
        (resolveSwitch l cfg dir) a dir _ hnot hrestore.1 hrestore.2
      rw [hwrite] at hundone
      cases hremoved : a.removed <;> cases hstarted : a.started <;> cases hhealthy : a.healthy <;>
        simp [switchVersion, hvalid, hwrite, hremoved, hstarted, hhealthy, rollbackVersion, hnot, hundone]
    · have hyes : WriteFails dir a.writes := by simpa [hwrite] using hfails
      have hunchanged := @writeRuntimeFiles_unchanged_iff lower (switchManager (resolveSwitch l cfg dir))
        (resolveSwitch l cfg dir) dir _ hyes
      rw [hwrite] at hunchanged
      simp [switchVersion, hvalid, hwrite, hyes, hunchanged, switchedCompose]

/-- A compose file without `.env` beside it. -/
def composeOnly : Dir where
  path := "/opt/altr".toList
  compose := .text "services:\n".toList

def switchTarget : InstallConfig where
  image := "ghcr.io/helloaltr/altr-stream:2.0.0".toList
  port := ⟨8000, defaultPort_bounds⟩

/-- With both files in place a failing health check is undone. -/
theorem undoneOnError_unhealthy : UndoneOnError (·.map Char.toLower) {} switchTarget { healthy := false }
    { composeOnly with env := .text "ALTR_STREAM_PORT=8000\n".toList } :=
  (undoneOnError_iff _ _ _ _ _ ⟨rfl, rfl⟩).2 fun _ =>
    ⟨fun hfails => by simp [WriteFails] at hfails, fun _ => .inr ⟨nofun, nofun⟩⟩

/-- The new `.env` stays behind where there was none. -/
theorem not_undoneOnError : ¬ ∀ (lower : Text → Text) (l : LifecycleManager) (cfg : InstallConfig)
    (a : SwitchAnswers) (dir : Dir), a.restoreComposeFails = none ∧ a.restoreEnvFails = none →
      UndoneOnError lower l cfg a dir := by
  intro hall
  have hundone := hall (·.map Char.toLower) {} switchTarget { healthy := false } composeOnly ⟨rfl, rfl⟩
    (.health none) (by decide) (by decide)
  have henv : (switchVersion (·.map Char.toLower) {} switchTarget { healthy := false } composeOnly).2.env ≠
      .absent := by decide
  exact henv (congrArg Dir.env hundone)

end AltrStream.Installer
