import AltrStream.Python.Str
import AltrStream.Python.Template

/-! # The image named in `.env` and in the compose file

The two substitutions of `AltrSupervisor._persist_image_update`: every assignment
to `ALTR_STREAM_IMAGE`, and every reference to the published image.
-/
namespace AltrStream.Supervisor
open Python

/-- Reading a text translates line ends. -/
def universalNewlines : List Char → List Char
  | '\r' :: '\n' :: rest => '\n' :: universalNewlines rest
  | '\r' :: rest => '\n' :: universalNewlines rest
  | c :: rest => c :: universalNewlines rest
  | [] => []

/-! ### `.env` -/

def assignment : List Char := "ALTR_STREAM_IMAGE=".toList

/-- The line matches `^ALTR_STREAM_IMAGE=.*$`. -/
def assigns (line : List Char) : Bool := assignment.isPrefixOf line

def joinLines (lines : List (List Char)) : List Char := ['\n'].intercalate lines

/-- The new content of `.env`; `none` is an error in the template. -/
def newEnv (image content : List Char) : Option (List Char) :=
  let lines := content.splitOn '\n'
  if lines.any assigns then
    (Template.parse 0 (assignment ++ image)).map fun pieces =>
      joinLines (lines.map fun line => if assigns line then Template.expand [line] pieces else line)
  else some (content.rdropWhile isspace ++ '\n' :: assignment ++ image ++ ['\n'])

/-- The images assigned in `.env`, in order. -/
def envImages (content : List Char) : List (List Char) :=
  (content.splitOn '\n').filterMap fun line =>
    if assigns line then some (line.drop assignment.length) else none

/-! ### The compose file -/

def imageKey : List Char := ['i', 'm', 'a', 'g', 'e', ':']

/-- The text `${ALTR_STREAM_IMAGE:-` -/
def opening : List Char := '$' :: '{' :: "ALTR_STREAM_IMAGE:-".toList

def published : List Char := "ghcr.io/helloaltr/altr-stream:".toList

/-- A match of the pattern for references, by its groups. -/
structure ImageRef where
  lead : List Char
  override : List Char
  image : List Char
  closing : List Char
  deriving DecidableEq, Repr

def ImageRef.text (r : ImageRef) : List Char := r.lead ++ r.override ++ r.image ++ r.closing

def isTagChar (c : Char) : Bool := !isspace c && c ≠ '}'

/-- The second group, and what follows it. -/
def splitOverride (value : List Char) : List Char × List Char :=
  match value.dropPrefix? opening with
  | some named => (opening, named)
  | none => ([], value)

/-- The match with its last group, and what follows it. -/
def closeRef (lead override image : List Char) : List Char → ImageRef × List Char
  | '}' :: rest => (⟨lead, override, image, ['}']⟩, rest)
  | rest => (⟨lead, override, image, []⟩, rest)

/-- The match at the front of a text, and what follows it. -/
def matchRef? (s : List Char) : Option (ImageRef × List Char) := do
  let afterKey ← s.dropPrefix? imageKey
  let (override, named) := splitOverride (afterKey.dropWhile isspace)
  let tagged ← named.dropPrefix? published
  let tag := tagged.takeWhile isTagChar
  if tag = [] then none
  else
    return closeRef (imageKey ++ afterKey.takeWhile isspace) override (published ++ tag)
      (tagged.dropWhile isTagChar)

def scanFuel : ℕ → List Char → List (Char ⊕ ImageRef)
  | 0, _ => []
  | fuel + 1, s =>
    match matchRef? s, s with
    | some (r, rest), _ => .inr r :: scanFuel fuel rest
    | none, c :: rest => .inl c :: scanFuel fuel rest
    | none, [] => []

/-- The text with its references, from left to right; every step reads a character. -/
def scan (s : List Char) : List (Char ⊕ ImageRef) := scanFuel s.length s

/-- The template `\1${ALTR_STREAM_IMAGE:-image}` -/
def composeTemplate (image : List Char) : List Char := '\\' :: '1' :: opening ++ image ++ ['}']

/-- The new content of the compose file; `none` is an error in the template. -/
def newCompose (image content : List Char) : Option (List Char) :=
  (Template.parse 3 (composeTemplate image)).map fun pieces =>
    (scan content).flatMap fun
      | .inl c => [c]
      | .inr r => Template.expand [r.text, r.lead, r.override, r.closing] pieces

/-- The published images that the compose file refers to. -/
def composeImages (content : List Char) : List (List Char) :=
  (scan content).filterMap fun
    | .inl _ => none
    | .inr r => some r.image

end AltrStream.Supervisor
