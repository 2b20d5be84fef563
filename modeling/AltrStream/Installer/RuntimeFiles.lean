import AltrStream.Go.Strings

/-! # The installer's runtime files

`WriteRuntimeFiles` renders `docker-compose.yml` and `.env` into the target
directory; the other functions read names, the image and the port back from them.
-/
namespace AltrStream.Installer
open Foundations Go

/-- `ContainerName` -/
def containerName : Text := "altr-stream".toList

/-- `NamedDataVolume` -/
def namedDataVolume : Text := "altr_stream_data".toList

def defaultPort : ℤ := 8000

theorem defaultPort_bounds : -2 ^ 63 ≤ defaultPort ∧ defaultPort < 2 ^ 63 := by decide

inductive FileState where
  | absent
  | unreadable
  | text (content : Text)
  deriving DecidableEq, Repr

/-- `os.ReadFile` -/
def FileState.read : FileState → Option Text
  | .text content => some content
  | _ => none

/-- A target directory, with the two files that are rendered into it. -/
structure Dir where
  path : Text
  compose : FileState := .absent
  env : FileState := .absent
  deriving DecidableEq, Repr

structure InstallConfig where
  image : Text
  port : GoInt
  containerName : Text := []
  dataVolume : Text := []
  networkName : Text := []
  environment : Text := []
  feedbackURL : Text := []
  feedbackKey : Text := []

structure LifecycleManager where
  containerName : Text := []
  dataVolume : Text := []

def LifecycleManager.targetContainerName (l : LifecycleManager) : Text :=
  if l.containerName = [] then Installer.containerName else l.containerName

def LifecycleManager.targetDataVolume (l : LifecycleManager) : Text :=
  if l.dataVolume = [] then namedDataVolume else l.dataVolume

theorem targetContainerName_ne_nil (l : LifecycleManager) : l.targetContainerName ≠ [] := by
  unfold LifecycleManager.targetContainerName
  split_ifs with h
  · exact List.cons_ne_nil _ _
  · exact h

theorem targetDataVolume_ne_nil (l : LifecycleManager) : l.targetDataVolume ≠ [] := by
  unfold LifecycleManager.targetDataVolume
  split_ifs with h
  · exact List.cons_ne_nil _ _
  · exact h

/-! ### Readers -/

/-- The value behind a key on a line, both trimmed. -/
def valueOf? (key line : Text) : Option Text := ((trimSpace line).dropPrefix? key).map trimSpace

/-- The first value of the key that is not empty. -/
def firstValue (key content : Text) : Option Text :=
  ((lines content).filterMap (valueOf? key)).find? (· ≠ [])

def containerNameKey : Text := "ALTR_STREAM_CONTAINER_NAME=".toList

def dataVolumeKey : Text := "ALTR_STREAM_DATA_VOLUME=".toList

def imageKey : Text := "ALTR_STREAM_IMAGE=".toList

def environmentKey : Text := "ALTR_STREAM_ENVIRONMENT=".toList

def portKey : Text := "ALTR_STREAM_PORT=".toList

/-- `DetectContainerName` -/
def detectContainerName (dir : Dir) : Text :=
  if dir.path = [] then []
  else
    ((dir.env.read.bind (firstValue containerNameKey)).or
      (dir.compose.read.bind (firstValue "container_name:".toList))).getD []

/-- The first volume name behind a `volumes:` line. -/
def composeVolume : Bool → List Text → Option Text
  | _, [] => none
  | inVolumes, line :: rest =>
    let trimmed := trimSpace line
    if hasPrefix trimmed "volumes:".toList then composeVolume true rest
    else
      match inVolumes, trimmed.dropPrefix? "name:".toList with
      | true, some v =>
        let val := trimQuotes (trimSpace v)
        if val = [] then composeVolume inVolumes rest else some val
      | _, _ => composeVolume inVolumes rest

/-- `DetectDataVolume` -/
def detectDataVolume (dir : Dir) : Text :=
  if dir.path = [] then []
  else
    ((dir.env.read.bind (firstValue dataVolumeKey)).or
      (dir.compose.read.bind fun content => composeVolume false (lines content))).getD []

/-- The image that `StartContainer` finds configured in `.env`. -/
def configuredImage (dir : Dir) : Text :=
  ((dir.env.read.bind fun content =>
    (lines content).findSome? fun line => (trimSpace line).dropPrefix? imageKey)).getD []

/-- A line with a port overrides the port found so far. -/
def portLine (port : ℤ) (line : Text) : ℤ :=
  match (valueOf? portKey line).bind atoi with
  | some p => if 0 < p then p else port
  | none => port

/-- The port that `GetStatus` finds in `.env`. -/
def statusPort (dir : Dir) : ℤ :=
  match dir.env.read with
  | none => defaultPort
  | some content => (lines content).foldl portLine defaultPort

/-! ### The names in use -/

/-- The first of three names that is not empty. -/
def chooseName (configured detected fallback : Text) : Text :=
  if configured ≠ [] then configured else if detected ≠ [] then detected else fallback

theorem chooseName_ne_nil {configured detected fallback : Text} (h : fallback ≠ []) :
    chooseName configured detected fallback ≠ [] := by
  unfold chooseName
  split_ifs <;> assumption

section
variable (l : LifecycleManager) (dir : Dir) (cfg : InstallConfig)

def cName : Text := chooseName cfg.containerName (detectContainerName dir) l.targetContainerName

def volName : Text := chooseName cfg.dataVolume (detectDataVolume dir) l.targetDataVolume

def netName : Text :=
  if cfg.networkName ≠ [] then cfg.networkName
  else if cName l dir cfg ≠ containerName then cName l dir cfg ++ "-network".toList
  else "altr-network".toList

/-- `lower` is `strings.ToLower`. -/
def envLabel (lower : Text → Text) : Text :=
  if cfg.environment ≠ [] then cfg.environment
  else if cName l dir cfg ≠ containerName ∨ contains (lower (cName l dir cfg)) "test".toList then
    "test".toList
  else "production".toList

end

/-! ### Writers -/

/-- The lines of `docker-compose.yml`. -/
def composeLines (image : Text) (port : ℤ) (cName volName netName envLabel : Text) : List Text :=
  ["services:".toList,
   "  ".toList ++ cName ++ ":".toList,
   "    image: $\x7bALTR_STREAM_IMAGE:-".toList ++ image ++ "\x7d".toList,
   "    container_name: ".toList ++ cName,
   "    restart: unless-stopped".toList,
   "    ports:".toList,
   "      - \"".toList ++ itoa port ++ ":8000\"".toList,
   "    labels:".toList,
   "      - \"com.helloaltr.altr-stream.managed-by=installer\"".toList,
   "      - \"com.helloaltr.altr-stream.environment=".toList ++ envLabel ++ "\"".toList,
   "      - \"com.helloaltr.altr-stream.instance=".toList ++ cName ++ "\"".toList,
   "    environment:".toList,
   "      - ALTR_STREAM_HOST=0.0.0.0".toList,
   "      - ALTR_STREAM_PORT=8000".toList,
   "      - ALTR_STREAM_DATABASE_URL=sqlite+aiosqlite:////app/data/altr_stream.db".toList,
   "      - ALTR_STREAM_STATIC_DIR=/app/static".toList,
   "      - ALTR_STREAM_DEBUG=false".toList,
   ("      - ALTR_STREAM_FEEDBACK_SERVICE_URL=$\x7bALTR_STREAM_FEEDBACK_SERVICE_URL:-" ++
     "https://altr-feedback.onrender.com\x7d").toList,
   "      - ALTR_FEEDBACK_API_KEY=$\x7bALTR_FEEDBACK_API_KEY:-\x7d".toList,
   "    volumes:".toList,
   "      - ".toList ++ volName ++ ":/app/data".toList,
   "      - ./data/updates:/app/data/updates".toList,
   "    healthcheck:".toList,
   ("      test: [\"CMD-SHELL\", \"curl -f http://localhost:8000/api/v1/health || exit 1\"]").toList,
   "      interval: 15s".toList,
   "      timeout: 5s".toList,
   "      retries: 3".toList,
   "      start_period: 10s".toList,
   "    networks:".toList,
   "      - ".toList ++ netName,
   [],
   "volumes:".toList,
   "  ".toList ++ volName ++ ":".toList,
   "    driver: local".toList,
   [],
   "networks:".toList,
   "  ".toList ++ netName ++ ":".toList,
   "    driver: bridge".toList,
   []]

/-- A line of an existing `.env`, with the value of a known key replaced. -/
def updateLine (image cName volName envLabel line : Text) : Text :=
  let trimmed := trimSpace line
  if hasPrefix trimmed imageKey then imageKey ++ image
  else if hasPrefix trimmed containerNameKey then containerNameKey ++ cName
  else if hasPrefix trimmed dataVolumeKey then dataVolumeKey ++ volName
  else if hasPrefix trimmed environmentKey then environmentKey ++ envLabel
  else line

/-- The line is the first of the chain of checks to have the key. -/
def updates (key : Text) (line : Text) : Bool :=
  [imageKey, containerNameKey, dataVolumeKey, environmentKey].find? (hasPrefix (trimSpace line)) = some key

/-- The line for a key that no line of the file has, where it is wanted. -/
def addedLine (old : List Text) (key value : Text) (wanted : Bool) : List Text :=
  if !old.any (updates key) && wanted then [key ++ value] else []

/-- The lines of an existing `.env` after the update; names other than the defaults are added. -/
def mergedLines (image cName volName envLabel : Text) (old : List Text) : List Text :=
  old.map (updateLine image cName volName envLabel) ++
    addedLine old imageKey image (image ≠ []) ++
    addedLine old containerNameKey cName (cName ≠ [] ∧ cName ≠ containerName) ++
    addedLine old dataVolumeKey volName (volName ≠ [] ∧ volName ≠ namedDataVolume) ++
    addedLine old environmentKey envLabel (envLabel ≠ "production".toList)

/-- The lines of a new `.env`. -/
def freshLines (cfg : InstallConfig) (cName volName envLabel : Text) : List Text :=
  let fbURL :=
    if cfg.feedbackURL = [] then "https://altr-feedback.onrender.com".toList else cfg.feedbackURL
  [portKey ++ itoa cfg.port, "ALTR_STREAM_DEBUG=false".toList,
    "ALTR_STREAM_FEEDBACK_SERVICE_URL=".toList ++ fbURL,
    "ALTR_FEEDBACK_API_KEY=".toList ++ cfg.feedbackKey, imageKey ++ cfg.image] ++
    (if cName ≠ containerName then [containerNameKey ++ cName] else []) ++
    (if volName ≠ namedDataVolume then [dataVolumeKey ++ volName] else []) ++
    (if envLabel ≠ "production".toList then [environmentKey ++ envLabel] else []) ++ [[]]

/-- How the file operations of a call end; a failed write leaves something behind. -/
structure Writes where
  mkdirFails : Bool := false
  composeFails : Option FileState := none
  envFails : Option FileState := none
  deriving DecidableEq, Repr

inductive WriteError where
  | directory
  | compose
  | env
  deriving DecidableEq, Repr

/-- `os.WriteFile` -/
def written (content : Text) (fails : Option FileState) : FileState := fails.getD (.text content)

section
variable (lower : Text → Text) (l : LifecycleManager) (cfg : InstallConfig) (dir : Dir)

def composeContent : Text :=
  joinLines (composeLines cfg.image cfg.port (cName l dir cfg) (volName l dir cfg) (netName l dir cfg)
    (envLabel l dir cfg lower))

/-- The new `.env`, from the old one if there is one. -/
def envContent (old : Option Text) : Text :=
  let name := cName l dir cfg
  let volume := volName l dir cfg
  let label := envLabel l dir cfg lower
  joinLines <| match old with
    | some old => mergedLines cfg.image name volume label (lines old)
    | none => freshLines cfg name volume label

/-- `WriteRuntimeFiles`: its error, if there is one, and the directory afterwards. -/
def writeRuntimeFiles (w : Writes) : Option WriteError × Dir :=
  if w.mkdirFails then (some .directory, dir)
  else
    match w.composeFails with
    | some left => (some .compose, { dir with compose := left })
    | none =>
      let compose := .text (composeContent lower l cfg dir)
      match dir.env with
      | .unreadable => (none, { dir with compose })
      | .text old =>
        (none, { dir with compose, env := written (envContent lower l cfg dir (some old)) w.envFails })
      | .absent =>
        (if w.envFails.isSome then some .env else none,
          { dir with compose, env := written (envContent lower l cfg dir none) w.envFails })

end

/-! ### The declared volume -/

/-- `stripYAMLComment` -/
def stripYAMLComment : Bool → Bool → Text → Text
  | _, _, [] => []
  | inSingle, inDouble, c :: rest =>
    if c = '#' && !inSingle && !inDouble then []
    else if c = '\'' && !inDouble then c :: stripYAMLComment (!inSingle) inDouble rest
    else if c = '"' && !inSingle then c :: stripYAMLComment inSingle (!inDouble) rest
    else c :: stripYAMLComment inSingle inDouble rest

/-- Where the scan of a compose file is, and what it has found. -/
structure ComposeScan where
  inServices : Bool := false
  inServiceVolumes : Bool := false
  inTopVolumes : Bool := false
  hasServiceMount : Bool := false
  hasTopLevelVolume : Bool := false
  deriving DecidableEq, Repr

/-- The entry of a service's volume list mounts the volume at `/app/data`. -/
def mountsVolume (expectedVol trimmed : Text) : Bool :=
  match (trimQuotes (trimSpace (trimPrefix trimmed ['-']))).splitOn ':' with
  | src :: dst :: _ => trimSpace src = expectedVol && trimSpace dst = "/app/data".toList
  | _ => false

/-- A line at the left margin. -/
def topLevel (s : ComposeScan) (trimmed : Text) : ComposeScan :=
  if hasPrefix trimmed "services:".toList then
    { s with inServices := true, inServiceVolumes := false, inTopVolumes := false }
  else if hasPrefix trimmed "volumes:".toList then
    { s with inServices := false, inServiceVolumes := false, inTopVolumes := true }
  else if hasSuffix trimmed [':'] then
    { s with inServices := false, inServiceVolumes := false, inTopVolumes := false }
  else s

/-- An indented line inside the services. -/
def serviceLine (expectedVol : Text) (s : ComposeScan) (trimmed : Text) : ComposeScan :=
  if !s.inServices then s
  else if trimmed = "volumes:".toList then { s with inServiceVolumes := true }
  else if !s.inServiceVolumes then s
  else if hasPrefix trimmed ['-'] then
    { s with hasServiceMount := s.hasServiceMount || mountsVolume expectedVol trimmed }
  else if hasSuffix trimmed [':'] then { s with inServiceVolumes := false }
  else s

/-- An indented line inside the top-level volumes. -/
def volumeLine (expectedVol : Text) (s : ComposeScan) (trimmed : Text) : ComposeScan :=
  if s.inTopVolumes && hasSuffix trimmed [':'] && !hasPrefix trimmed ['-'] &&
      trimQuotes (trimSuffix trimmed [':']) = expectedVol then
    { s with hasTopLevelVolume := true }
  else s

def scanLine (expectedVol : Text) (s : ComposeScan) (rawLine : Text) : ComposeScan :=
  let stripped := stripYAMLComment false false rawLine
  let trimmed := trimSpace stripped
  if trimmed = [] then s
  else if stripped.head?.any fun c => c ≠ ' ' && c ≠ '\t' then topLevel s trimmed
  else volumeLine expectedVol (serviceLine expectedVol s trimmed) trimmed

def hasDeclaredComposeDataVolume (content expectedVol : Text) : Bool :=
  if trimSpace content = [] || expectedVol = [] then false
  else
    let s := (lines content).foldl (scanLine expectedVol) {}
    s.hasServiceMount && s.hasTopLevelVolume

end AltrStream.Installer
