import AltrStream.Python.Str
import AltrStream.Python.Text

/-! # Semantic versions

`domain/semver.py`: the versions that a text can be parsed to and how they are
compared. A comparison of long numeric identifiers can raise, since `int` refuses
more than 4300 digits.
-/
namespace AltrStream.Domain
open Python

structure SemVer where
  major : ℕ
  minor : ℕ
  patch : ℕ
  prerelease : Option String := none
  build : Option String := none
  deriving DecidableEq, Repr

namespace SemVer

section
variable (u : Unicode)

/-- `0|[1-9]\d*` -/
def isNumericIdent (s : List Char) : Bool :=
  match s with
  | [] => false
  | ['0'] => true
  | c :: rest => '1' ≤ c && c ≤ '9' && rest.all u.isDecimal

def isIdentChar (c : Char) : Bool := c.isAlphanum || c = '-'

/-- `\d*[a-zA-Z-][0-9a-zA-Z-]*` -/
def isAlphaIdent (s : List Char) : Bool :=
  match s.dropWhile u.isDecimal with
  | c :: rest => (c.isAlpha || c = '-') && rest.all isIdentChar
  | [] => false

def isPrereleaseIdent (s : List Char) : Bool := isNumericIdent u s || isAlphaIdent u s

def isBuildIdent (s : List Char) : Bool := !s.isEmpty && s.all isIdentChar

/-- The text before the first separator, and the text behind it if there is one. -/
def cut (sep : Char) (s : List Char) : List Char × Option (List Char) :=
  let before := s.takeWhile (· ≠ sep)
  match s.drop before.length with
  | _ :: after => (before, some after)
  | [] => (before, none)

/-- A number of the version, if `int` can read it. -/
def number (s : List Char) : Option ℕ :=
  if isNumericIdent u s then (u.int s).toOption.map Int.toNat else none

/-- Dot-separated identifiers, if there are any. -/
def identifiers (ok : List Char → Bool) : Option (List Char) → Option (Option String)
  | none => some none
  | some s => if (s.splitOn '.').all ok then some (some (String.ofList s)) else none

/-- `SemVer.try_parse` -/
def tryParse (versionStr : String) : Option SemVer :=
  let clean := (strip versionStr).toList
  let (rest, build) := cut '+' (if clean.head? = some 'v' then clean.tail else clean)
  let (core, prerelease) := cut '-' rest
  match core.splitOn '.' with
  | [major, minor, patch] => do
    let prerelease ← identifiers (isPrereleaseIdent u) prerelease
    let build ← identifiers isBuildIdent build
    return { major := ← number u major, minor := ← number u minor, patch := ← number u patch,
             prerelease, build }
  | _ => none

end

/-- `str(version)` -/
def str (v : SemVer) : String :=
  s!"{v.major}.{v.minor}.{v.patch}" ++ (v.prerelease.elim "" ("-" ++ ·)) ++ v.build.elim "" ("+" ++ ·)

/-- `a == b`; build metadata is ignored. -/
def same (a b : SemVer) : Bool :=
  a.major = b.major && a.minor = b.minor && a.patch = b.patch && a.prerelease = b.prerelease

section
variable (u : Unicode)

/-- `part.isdigit()` -/
def isNumeric (part : String) : Bool := part ≠ "" && part.toList.all u.isdigit

/-- Pre-release identifiers in order, until two differ. -/
def partsLt : List String → List String → Except String Bool
  | sp :: sps, op :: ops =>
    if sp = op then partsLt sps ops
    else
      match isNumeric u sp, isNumeric u op with
      | true, true => do return (← u.int sp.toList) < (← u.int op.toList)
      | true, false => .ok true
      | false, true => .ok false
      | false, false => .ok (sp < op)
  | sps, ops => .ok (sps.length < ops.length)

/-- `a < b` -/
def lt (a b : SemVer) : Except String Bool :=
  if (a.major, a.minor, a.patch) ≠ (b.major, b.minor, b.patch) then
    .ok (a.major < b.major || a.major = b.major &&
      (a.minor < b.minor || a.minor = b.minor && a.patch < b.patch))
  else
    match a.prerelease, b.prerelease with
    | none, _ => .ok false
    | some _, none => .ok true
    | some p, some q => partsLt u (split '.' p) (split '.' q)

/-- `a > b`, as `total_ordering` derives it. -/
def gt (a b : SemVer) : Except String Bool := do return !(← lt u a b) && !same a b

end

example : (tryParse .ascii " v1.20.0-rc.1+b5 ").map str = some "1.20.0-rc.1+b5" := by decide

example : (tryParse .ascii "1.02.0", tryParse .ascii "1.2") = (none, none) := by decide

end SemVer

end AltrStream.Domain
