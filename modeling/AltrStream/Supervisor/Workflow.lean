import AltrStream.Domain.SemVer
import AltrStream.Supervisor.Host

/-! # The update workflow

`AltrSupervisor.process_pending_request` and `reconcile_startup_state`: a request is
read, gated by version, pulled, applied, verified, and rolled back where that fails.
-/
namespace AltrStream.Supervisor
open Python Domain Foundations Traced

/-- What the code takes from its interpreter. -/
structure Interpreter where
  unicode : Unicode
  casing : Casing
  printer : Printer

/-- What leaves a step as an exception. -/
inductive Fault where
  | docker (message : String)
  | comparison (message : String)
  | noAttribute (message : String)
  | decoding
  | template
  deriving DecidableEq, Repr

abbrev Step := Traced Event Fault

/-! ### Requests -/

def allowedImagePrefixes : List String := ["ghcr.io/helloaltr/altr-stream:", "altr-stream:"]

def unsafeChars : List Char := ";;|&`$<>".toList

def startsWithAny (prefixes : List String) : Json → Except String Bool
  | .text s => .ok (prefixes.any fun p => p.toList.isPrefixOf s.toList)
  | v =>
    let type := v.typeName
    .error s!"'{type}' object has no attribute 'startswith'"

/-- `any(c in value for c in chars)` -/
def containsAny (v : Json) : List Char → Except String Bool
  | [] => .ok false
  | c :: chars => do if ← v.containsChar c then return true else containsAny v chars

structure Request where
  requestId : Json
  currentVersion : Json
  targetVersion : Json
  targetImage : String

section
variable (I : Interpreter)

def validateRequest (req : Json) : Except String Unit := do
  let targetImage ← req.get "target_image" (.text "")
  let authorized ←
    if targetImage.truthy then startsWithAny allowedImagePrefixes targetImage else pure false
  let image := I.printer.str targetImage
  unless authorized do
    throw s!"Unauthorized target image '{image}'. Must originate from an allowed registry."
  let targetVersion ← req.get "target_version" (.text "")
  let malformed ← if targetVersion.truthy then containsAny targetVersion unsafeChars else pure true
  let version := I.printer.str targetVersion
  if malformed then throw s!"Malformed or unsafe target version: '{version}'."

/-- The request in a file; a valid one has a text for its image. -/
def readRequest (file : JsonFile) : Except String Request := do
  let req ← file
  validateRequest I req
  return { requestId := ← req.get "request_id" .null
           currentVersion := ← req.get "current_version" (.text "unknown")
           targetVersion := ← req.get "target_version" (.text "unknown")
           targetImage := ((← req.get "target_image" (.text "")).text?).getD "" }

/-- `SemVer.try_parse` of any value. -/
def version? (v : Json) : Option SemVer := v.text?.bind (SemVer.tryParse I.unicode)

/-! ### Statuses -/

def statusOf (requestId : Json) (state : String) (currentVersion targetVersion : Json) (progress : ℤ)
    (message : String) (error : Json) (rollback : Bool) : Json :=
  .obj [("request_id", requestId), ("state", .text state), ("current_version", currentVersion),
    ("target_version", targetVersion), ("progress_percent", .int progress),
    ("message", .text message), ("error", error), ("rollback_performed", .bool rollback)]

def Request.status (req : Request) (state : String) (currentVersion : Json) (progress : ℤ)
    (message : String) (error : Json) (rollback : Bool) : Json :=
  statusOf req.requestId state currentVersion req.targetVersion progress message error rollback

def invalidStatus (message : String) : Json :=
  .obj [("state", .text "failed"), ("current_version", .text "unknown"),
    ("error", .text s!"Invalid update request: {message}"),
    ("message", .text "Update request validation failed."), ("progress_percent", .int 0)]

/-- `_write_status_atomic` -/
def writeStatus (status : Json) (image : Option String) : Step Unit := act (.wrote status image)

/-- `_cleanup_request_file` -/
def cleanupRequestFile (onHost : Bool) (a : Answers) : Step Unit := do
  if onHost then act .unlinked
  if a.removesInContainer then act .removedInContainer

def finish (status : Json) (image : Option String) (onHost : Bool) (a : Answers) :
    Step (Option Json) := do
  writeStatus status image
  cleanupRequestFile onHost a
  return some status

/-! ### Persisting an image -/

/-- Write a file with a new content. -/
def save (file : ConfigName) (image : String) (new : List Char) (a : Answers) : Step Unit :=
  match a.writeFailed file with
  | none => act (.saved file image new)
  | some left => act (.spoiled file image left)

def persistEnv (image : String) (h : Host) (a : Answers) : Step Unit :=
  match h.env with
  | .absent | .unreadable => pure ()
  | .undecodable => raise .decoding
  | .text content =>
    match newEnv image.toList (universalNewlines content) with
    | none => raise .template
    | some new => save .env image new a

def persistCompose (image : String) (h : Host) (a : Answers) : Step Unit :=
  match h.compose with
  | .absent | .unreadable => pure ()
  | .undecodable => raise .decoding
  | .text content =>
    match newCompose image.toList (universalNewlines content) with
    | none => raise .template
    | some new => if new = universalNewlines content then pure () else save .compose image new a

def persistImageUpdate (image : String) (h : Host) (a : Answers) : Step Unit := do
  persistEnv image h a
  persistCompose image h a

/-! ### Intake -/

/-- The request on the host, copied from the container where there is none. -/
def syncRequest (h : Host) (a : Answers) : Step (Option JsonFile) :=
  match h.request, a.requestCopied, h.containerRequest with
  | some file, _, _ => return some file
  | none, .whole, some file => do
    act (.syncedRequest file)
    match a.statusCopied with
    | some status => act (.syncedStatus status)
    | none => pure ()
    return some file
  | none, .part left, _ => do
    act (.syncedRequest left)
    return some left
  | none, _, _ => return none

/-- `live_version or current_version or ""` -/
def knownVersion (req : Request) (a : Answers) : Json :=
  (Json.ofText? a.liveVersion).orElse (req.currentVersion.orElse (.text ""))

def isUnknown (v : Json) : Bool := !v.truthy || v.text? = some "unknown"

/-- The tag of the current image, if it has one. -/
def taggedVersion (known : Json) : Option String → Json
  | none => known
  | some image => if ':' ∈ image.toList then .text ((split ':' image).getLastD "") else known

/-- The version that runs, as far as the live endpoint, the request or the image's tag tell. -/
def runningVersion (req : Request) (a : Answers) : Step Json := do
  act (.observed a.liveVersion)
  let known := knownVersion req a
  if isUnknown known then
    match a.currentImage with
    | .error message => raise (.docker message)
    | .ok image => return taggedVersion known image
  else return known

/-- The terminal status where nothing is to be done, from the versions that run and are wanted. -/
def gate (req : Request) (running : Json) : Except Fault (Option Json) :=
  match version? I running, version? I req.targetVersion with
  | some r, some t =>
    let version := r.str
    let target := I.printer.str req.targetVersion
    if r.same t then
      .ok <| some <| req.status "completed" (.text version) 100
        s!"Service is already running v{target}." .null false
    else
      match SemVer.gt I.unicode r t with
      | .error message => .error (.comparison message)
      | .ok true =>
        .ok <| some <| req.status "failed" (.text version) 0
          s!"Cannot update to older version v{target} (service is on v{version})."
          (.text s!"Target version v{target} is older than running v{version}.") false
      | .ok false => .ok none
  | _, _ => .ok none

/-! ### Staging and applying -/

def pullImage (image : String) (a : Answers) : Step (Except String Unit) := do
  act (.pulled image (a.pullTimed matches .ok))
  match a.pullTimed with
  | .typeError _ => do
    act (.pulled image (a.pullPlain matches .ok))
    return a.pullPlain.toExcept
  | first => return first.toExcept

/-- Pull an image, or find it on the host where that is allowed; the error of the pull otherwise. -/
def fetchImage (image : String) (a : Answers) : Step (Except String Unit) := do
  match ← pullImage image a with
  | .ok () => return .ok ()
  | .error message =>
    if a.allowLocalImages then
      match a.existsLocally with
      | .error message => raise (.docker message)
      | .ok found => do
        act (.lookedUp image found)
        return if found then .ok () else .error message
    else return .error message

def previousImage (req : Request) (a : Answers) : Except Fault String :=
  match a.previousImage with
  | .error message => .error (.docker message)
  | .ok (some image) =>
    if image = "" then .ok ("ghcr.io/helloaltr/altr-stream:" ++ I.printer.str req.currentVersion)
    else .ok image
  | .ok none => .ok ("ghcr.io/helloaltr/altr-stream:" ++ I.printer.str req.currentVersion)

/-- Recreate the service with the target image; whether it was verified then. -/
def activate (req : Request) (a : Answers) : Step Bool := do
  act (.recreated req.targetImage a.recreatesTarget)
  if a.recreatesTarget && a.copiesToTarget then
    writeStatus (req.status "health_check" req.currentVersion 75 "Verifying new version healthcheck..."
      .null false) (some req.targetImage)
    act (.checked req.targetVersion a.targetHealthy)
    return a.targetHealthy
  else return false

def completedStatus (req : Request) : Json :=
  let target := I.printer.str req.targetVersion
  req.status "completed" req.targetVersion 100 s!"Update to {target} completed successfully." .null
    false

def complete (req : Request) (h : Host) (a : Answers) : Step (Option Json) := do
  persistImageUpdate req.targetImage h a
  finish (completedStatus I req) (some req.targetImage) true a

/-! ### Rollback -/

/-- `value.lstrip("v")` -/
def lstripV (v : Json) : Except Fault String :=
  match v with
  | .text s => .ok (String.ofList (s.toList.dropWhile (· = 'v')))
  | v =>
    let type := v.typeName
    .error (.noAttribute s!"'{type}' object has no attribute 'lstrip'")

/-- Recreate the service with the previous image; its health and its version then. -/
def restore (expected : Json) (previous : String) (a : Answers) : Step (Bool × Option String) := do
  act (.recreated previous a.recreatesPrevious)
  if a.recreatesPrevious then
    act (.checked expected a.previousHealthy)
    act (.observed a.rollbackVersion)
    return (a.previousHealthy, a.rollbackVersion)
  else return (false, none)

def rolledBackStatus (req : Request) (expected : Json) (live : Option String) : Json :=
  let target := I.printer.str req.targetVersion
  let final := (Json.ofText? live).orElse expected
  let version := I.printer.str final
  req.status "rolled_back" final 100 s!"Rolled back to previous version {version} due to failure."
    (.text <| s!"New version {target} failed health verification; " ++
      s!"successfully rolled back to {version}.") true

def rollbackFailedStatus (req : Request) (expected : Json) (live : Option String) (recreated : Bool) :
    Json :=
  let target := I.printer.str req.targetVersion
  let previous := I.printer.str expected
  let node := I.printer.str ((Json.ofText? live).orElse (.text "unknown"))
  req.status "failed" ((Json.ofText? live).orElse req.currentVersion) 100
    s!"Update to {target} failed and rollback verification failed."
    (.text <| s!"Update to {target} failed healthcheck. Rollback verification failed: " ++
      s!"expected {previous}, but node is running {node}.") recreated

def rollBack (req : Request) (expected : Json) (previous : String) (h : Host) (a : Answers) :
    Step (Option Json) := do
  writeStatus (req.status "rolling_back" req.currentVersion 85
    s!"Activation failed. Rolling back to {previous}..." (.text "Health check verification failed.")
    true) (some req.targetImage)
  let (healthy, live) ← restore expected previous a
  let cleanExpected ← answer (lstripV expected)
  let cleanLive ← answer (lstripV (.text (live.getD "")))
  if healthy && cleanLive = cleanExpected then
    persistImageUpdate previous h a
    finish (rolledBackStatus I req expected live) (some req.targetImage) true a
  else
    finish (rollbackFailedStatus I req expected live a.recreatesPrevious) (some req.targetImage) true a

/-! ### Steps -/

/-- The workflow, once the version gate has let a request pass. -/
def update (req : Request) (running : Json) (h : Host) (a : Answers) : Step (Option Json) := do
  let expected := running.orElse req.currentVersion
  let image := req.targetImage
  writeStatus (req.status "staging" req.currentVersion 25 (s!"Downloading target image {image} " ++
    "(this may take several minutes on slower connections)...") .null false) (some image)
  match ← fetchImage image a with
  | .error message =>
    finish (req.status "failed" req.currentVersion 0 "Failed to pull image." (.text message) false)
      (some image) true a
  | .ok () =>
    let previous ← answer (previousImage I req a)
    writeStatus (req.status "applying" req.currentVersion 50
      "Recreating application container with updated image..." .null false) (some image)
    if ← activate req a then complete I req h a else rollBack I req expected previous h a

/-- `process_pending_request`, from the request that was found. -/
def processRequest (file : JsonFile) (h : Host) (a : Answers) : Step (Option Json) := do
  match readRequest I file with
  | .error message => do
    writeStatus (invalidStatus message) none
    cleanupRequestFile true a
    return none
  | .ok req =>
    let running ← runningVersion req a
    match ← answer (gate I req running) with
    | some status => finish status (some req.targetImage) true a
    | none => update I req running h a

def processPendingRequest (h : Host) (a : Answers) : Step (Option Json) := do
  match ← syncRequest h a with
  | none => return none
  | some file => processRequest I file h a

def activeStates : List String := ["staging", "applying", "health_check", "rolling_back", "requested"]

/-- The status that ends an interrupted workflow. -/
def reconciledStatus (state : String) (requestId currentVersion targetVersion : Json)
    (live : Option String) : Json :=
  match live.bind (SemVer.tryParse I.unicode), version? I targetVersion with
  | some r, some t =>
    if r.same t then
      let target := I.printer.str targetVersion
      statusOf requestId "completed" (Json.ofText? live) targetVersion 100
        s!"Service is running target version v{target}." .null false
    else interrupted
  | _, _ => interrupted
where
  interrupted : Json :=
    let actual := (Json.ofText? live).orElse currentVersion
    let version := I.printer.str actual
    statusOf requestId "failed" actual targetVersion 0
      s!"Update workflow interrupted by supervisor restart while in '{state}'."
      (.text <| s!"Supervisor was restarted during active state '{state}'. " ++
        s!"Node is running v{version}.") false

def reconcileStartupState (h : Host) (a : Answers) : Step (Option Json) :=
  match h.status with
  | none => return none
  | some ⟨.error _, _⟩ => return none
  | some ⟨.ok data, image⟩ => do
    let state ← answer ((data.get "state" (.text "")).mapError .noAttribute)
    let state := I.casing.lower (I.printer.str state)
    if state ∈ activeStates then
      let requestId ← answer ((data.get "request_id" .null).mapError .noAttribute)
      let currentVersion ← answer ((data.get "current_version" (.text "unknown")).mapError .noAttribute)
      let targetVersion ← answer ((data.get "target_version" .null).mapError .noAttribute)
      act (.observed a.liveVersion)
      finish (reconciledStatus I state requestId currentVersion targetVersion a.liveVersion) image
        h.request.isSome a
    else return none

end

end AltrStream.Supervisor
