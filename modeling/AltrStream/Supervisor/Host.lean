import AltrStream.Foundations.Traced
import AltrStream.Python.Loads
import AltrStream.Supervisor.Files

/-! # The host of the update supervisor

The files that the supervisor reads and writes, the actions it performs on them and
on the service, and the answers it gets from Docker and from the health endpoint.
-/
namespace AltrStream.Supervisor
open Python

/-- What `json.loads` makes of a file, or the error that reading it raises. -/
abbrev JsonFile := Except String Json

/-- A status file, with the target image of the request that it is about. -/
structure StatusFile where
  content : JsonFile
  image : Option String

inductive ConfigFile where
  | absent
  | unreadable
  | undecodable
  | text (content : List Char)

/-- The two files that name the image of the service. -/
inductive ConfigName where
  | env
  | compose
  deriving DecidableEq, Repr

structure Host where
  request : Option JsonFile := none
  /-- The request inside the container. -/
  containerRequest : Option JsonFile := none
  status : Option StatusFile := none
  env : ConfigFile := .absent
  compose : ConfigFile := .absent

namespace Host

def config (h : Host) : ConfigName → ConfigFile
  | .env => h.env
  | .compose => h.compose

def setConfig (h : Host) (f : ConfigFile) : ConfigName → Host
  | .env => { h with env := f }
  | .compose => { h with compose := f }

end Host

/-! ### Actions -/

inductive Event where
  /-- A request was copied from the container. -/
  | syncedRequest (file : JsonFile)
  | syncedStatus (file : StatusFile)
  /-- A status was written, about a request for an image. -/
  | wrote (status : Json) (image : Option String)
  | pulled (image : String) (ok : Bool)
  | lookedUp (image : String) (found : Bool)
  | recreated (image : String) (ok : Bool)
  | checked (expected : Json) (healthy : Bool)
  | observed (version : Option String)
  /-- An image was persisted in a file that has this content now. -/
  | saved (file : ConfigName) (image : String) (content : List Char)
  /-- Persisting an image in a file failed and left this. -/
  | spoiled (file : ConfigName) (image : String) (left : ConfigFile)
  | unlinked
  | removedInContainer

/-- What an action changes on the host. -/
def Host.apply (h : Host) : Event → Host
  | .syncedRequest f => { h with request := some f }
  | .syncedStatus f => { h with status := some f }
  | .wrote s image => { h with status := some ⟨.ok s, image⟩ }
  | .saved file _ content => h.setConfig (.text content) file
  | .spoiled file _ left => h.setConfig left file
  | .unlinked => { h with request := none }
  | .removedInContainer => { h with containerRequest := none }
  | .pulled .. | .lookedUp .. | .recreated .. | .checked .. | .observed .. => h

def Host.run (h : Host) (events : List Event) : Host := events.foldl Host.apply h

@[simp] theorem Host.run_nil (h : Host) : h.run [] = h := rfl

@[simp] theorem Host.run_cons (h : Host) (e : Event) (events : List Event) :
    h.run (e :: events) = (h.apply e).run events := rfl

@[simp] theorem Host.run_append (h : Host) (events events' : List Event) :
    h.run (events ++ events') = (h.run events).run events' := List.foldl_append

/-! ### Answers -/

/-- What `copy_from_container` left on the host. -/
inductive Copied where
  | nothing
  | whole
  | part (left : JsonFile)

/-- How `pull_image` ends. -/
inductive Pulled where
  | ok
  | typeError (message : String)
  | failed (message : String)

def Pulled.toExcept : Pulled → Except String Unit
  | .ok => .ok ()
  | .typeError message | .failed message => .error message

/-- What the calls of one step are answered, call by call. -/
structure Answers where
  requestCopied : Copied := .nothing
  statusCopied : Option StatusFile := none
  liveVersion : Option String := none
  /-- `get_current_image`, when no version is known. -/
  currentImage : Except String (Option String) := .ok none
  /-- `pull_image` with a timeout. -/
  pullTimed : Pulled := .ok
  pullPlain : Pulled := .ok
  allowLocalImages : Bool := false
  existsLocally : Except String Bool := .ok false
  /-- `get_current_image`, before the service is recreated. -/
  previousImage : Except String (Option String) := .ok none
  recreatesTarget : Bool := true
  /-- Copying the status into the new container does not raise. -/
  copiesToTarget : Bool := true
  targetHealthy : Bool := true
  recreatesPrevious : Bool := true
  previousHealthy : Bool := true
  rollbackVersion : Option String := none
  /-- What a failed write leaves behind. -/
  writeFailed : ConfigName → Option ConfigFile := fun _ => none
  removesInContainer : Bool := true

end AltrStream.Supervisor
