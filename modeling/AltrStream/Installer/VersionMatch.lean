import AltrStream.Foundations.Dict
import AltrStream.Installer.Switch

/-! # The version of a health response

The switch to a version is a success if the health endpoint answers for that version. The answer
is matched by prefixes, in both directions.
-/
namespace AltrStream.Installer
open Foundations Go

/-- A value of a decoded object; only texts are read. -/
inductive GoValue where
  | string (s : Text)
  | other
  deriving DecidableEq, Repr

/-- `json.Unmarshal` into a `map[string]interface{}`; `none` is an error. -/
abbrev UnmarshalMap := Text → Option (Dict Text GoValue)

def asString : Option GoValue → Option Text
  | some (.string s) => some s
  | _ => none

/-- `strings.TrimPrefix(s, "v")` -/
def withoutV (s : Text) : Text := trimPrefix s ['v']

/-- The alternatives of an expected version. -/
def alternatives (expected : Text) : List Text := (expected.splitOn '|').map trimSpace

section
variable (unmarshal : UnmarshalMap) (body expected : Text)

/-- The status is there and is neither `healthy` nor `ok`. -/
def statusRefused (data : Dict Text GoValue) : Bool :=
  (asString (data.get? "status".toList)).any fun st => st ≠ "healthy".toList && st ≠ "ok".toList

/-- One text begins with the other. -/
def prefixRelated (cleanVer cleanCand : Text) : Bool :=
  hasPrefix cleanVer cleanCand || hasPrefix cleanCand cleanVer

def checkVersionMatch : Bool :=
  if expected = [] then true
  else
    match unmarshal body with
    | none => contains body "healthy".toList || contains body "ok".toList
    | some data =>
      if statusRefused data then false
      else
        match asString (data.get? "version".toList) with
        | some ver => (alternatives expected).any fun cand =>
            withoutV cand ≠ [] && prefixRelated (withoutV ver) (withoutV cand)
        | none => true

/-- The body reports one of the expected versions, up to a leading `v`. -/
def ReportsRequested : Prop :=
  ∃ data ver, unmarshal body = some data ∧ asString (data.get? "version".toList) = some ver ∧
    ∃ cand ∈ alternatives expected, withoutV cand = withoutV ver

end

/-! ### Polling -/

/-- What one round of polling sees. -/
structure HealthRound where
  /-- The container runs, and its port is mapped to the expected one. -/
  mapped : Bool
  /-- What `curl` prints in the container, unless it fails or prints nothing. -/
  exec : Option Text
  host : Option Text
  fallback : Option Text
  deriving DecidableEq, Repr

inductive HealthError where
  | versionMismatch (body : Text)
  | timeout
  deriving DecidableEq, Repr

section
variable (unmarshal : UnmarshalMap) (expected : Text)

def probe (body : Text) : Except HealthError Text :=
  if checkVersionMatch unmarshal body expected then .ok body else .error (.versionMismatch body)

/-- A round that ends the polling. -/
def healthRound (r : HealthRound) : Option (Except HealthError Text) :=
  if !r.mapped then none
  else
    match r.exec.filter (!checkVersionMatch unmarshal · expected) with
    | some out => some (.error (.versionMismatch out))
    | none => (r.host.or r.fallback).map (probe unmarshal expected)

/-- `VerifyHealth`, for the rounds until the timeout. -/
def verifyHealth : List HealthRound → Except HealthError Text
  | [] => .error .timeout
  | r :: rounds => (healthRound unmarshal expected r).getD (verifyHealth rounds)

/-- The version that `SwitchVersion` expects: that of the configuration, or the tag of the image. -/
def expectedVersion (version image : Text) : Text :=
  if contains image [':'] then
    let tag := (image.splitOn ':').getLastD []
    if tag ≠ [] ∧ tag ≠ "latest".toList ∧ tag ≠ version then version ++ '|' :: tag else version
  else version

/-- `SwitchVersion`, with the rounds of its health check. -/
def switchVersionTo (lower : Text → Text) (l : LifecycleManager) (cfg : InstallConfig)
    (version : Text) (a : SwitchAnswers) (rounds : List HealthRound) (dir : Dir) :
    Option SwitchError × Dir :=
  let healthy := (verifyHealth unmarshal (expectedVersion version cfg.image) rounds).isOk
  switchVersion lower l cfg { a with healthy } dir

/-- The check accepts the body only for the requested version, and no switch that ends with this
body is a success otherwise. -/
structure AcceptsOnlyRequested (body : Text) : Prop where
  check : checkVersionMatch unmarshal body expected = true → ReportsRequested unmarshal body expected
  switch : ∀ lower l cfg version a rounds dir, expectedVersion version cfg.image = expected →
    verifyHealth unmarshal expected rounds = .ok body →
    (switchVersionTo unmarshal lower l cfg version a rounds dir).1 = none →
    ReportsRequested unmarshal body expected

/-- What is not an object says neither that it is healthy nor that it is ok. What is one reports a
version, and that is an alternative if it begins one or one begins it. -/
def ReportsExactly (body : Text) : Prop :=
  match unmarshal body with
  | none => expected ≠ [] ∧ contains body "healthy".toList = false ∧
      contains body "ok".toList = false
  | some data => (expected ≠ [] → statusRefused data = false) →
      ∃ ver, asString (data.get? "version".toList) = some ver ∧
        ((expected ≠ [] → ∃ cand ∈ alternatives expected, withoutV cand ≠ [] ∧
            prefixRelated (withoutV ver) (withoutV cand) = true) →
          ∃ cand ∈ alternatives expected, withoutV cand = withoutV ver)

end

section
variable {unmarshal : UnmarshalMap} {body expected : Text}

theorem probe_eq_ok {out : Text} (h : probe unmarshal expected out = .ok body) :
    checkVersionMatch unmarshal body expected = true := by
  unfold probe at h
  split_ifs at h with hmatch
  obtain rfl := Except.ok.inj h
  exact hmatch

/-- One round ends well only with a body that is accepted. -/
theorem healthRound_eq_ok {r : HealthRound} (h : healthRound unmarshal expected r = some (.ok body)) :
    checkVersionMatch unmarshal body expected = true := by
  unfold healthRound at h
  split_ifs at h
  split at h
  · cases h
  · obtain ⟨out, -, hprobe⟩ := Option.map_eq_some_iff.1 h
    exact probe_eq_ok hprobe

/-- So does the whole polling. -/
theorem verifyHealth_eq_ok {rounds : List HealthRound}
    (h : verifyHealth unmarshal expected rounds = .ok body) :
    checkVersionMatch unmarshal body expected = true := by
  induction rounds with
  | nil => cases h
  | cons r rounds ih =>
    unfold verifyHealth at h
    cases hround : healthRound unmarshal expected r with
    | none =>
      rw [hround] at h
      exact ih h
    | some result =>
      rw [hround, Option.getD_some] at h
      exact healthRound_eq_ok (hround.trans (congrArg some h))

theorem checkVersionMatch_iff : (checkVersionMatch unmarshal body expected = true →
    ReportsRequested unmarshal body expected) ↔ ReportsExactly unmarshal expected body := by
  unfold checkVersionMatch ReportsRequested ReportsExactly
  cases hdata : unmarshal body with
  | none =>
    by_cases hempty : expected = []
    · simp [hempty]
    · simp [hempty]
  | some data =>
    have hreports : (∃ data' ver, some data = some data' ∧
        asString (data'.get? "version".toList) = some ver ∧
        ∃ cand ∈ alternatives expected, withoutV cand = withoutV ver) ↔
        ∃ ver, asString (data.get? "version".toList) = some ver ∧
          ∃ cand ∈ alternatives expected, withoutV cand = withoutV ver := by
      constructor
      · rintro ⟨data', ver, hsame, h⟩
        obtain rfl := Option.some.inj hsame
        exact ⟨ver, h⟩
      · rintro ⟨ver, h⟩
        exact ⟨data, ver, rfl, h⟩
    rw [hreports]
    dsimp only
    generalize asString (data.get? "version".toList) = reported
    by_cases hempty : expected = []
    · simp [hempty]
    · cases hrefused : statusRefused data with
      | true => simp [hempty]
      | false =>
        cases reported with
        | none => simp [hempty]
        | some ver => simp [hempty]

/-- A health response is accepted only for the requested version exactly if what it reports is not
merely related to it as a prefix. -/
theorem acceptsOnlyRequested_iff (unmarshal : UnmarshalMap) (body expected : Text) :
    AcceptsOnlyRequested unmarshal expected body ↔ ReportsExactly unmarshal expected body := by
  constructor
  · exact fun h => checkVersionMatch_iff.1 h.check
  · intro h
    have hcheck := checkVersionMatch_iff.2 h
    refine ⟨hcheck, ?_⟩
    rintro lower l cfg version a rounds dir - hhealth -
    exact hcheck (verifyHealth_eq_ok hhealth)

/-- A successful switch has a health response that was accepted for the expected version. -/
theorem exists_of_switchVersionTo {lower : Text → Text} {l : LifecycleManager} {cfg : InstallConfig}
    {version : Text} {a : SwitchAnswers} {rounds : List HealthRound} {dir : Dir}
    (h : (switchVersionTo unmarshal lower l cfg version a rounds dir).1 = none) :
    ∃ body, verifyHealth unmarshal (expectedVersion version cfg.image) rounds = .ok body ∧
      checkVersionMatch unmarshal body (expectedVersion version cfg.image) = true := by
  cases hhealth : verifyHealth unmarshal (expectedVersion version cfg.image) rounds with
  | ok body => exact ⟨body, rfl, verifyHealth_eq_ok hhealth⟩
  | error e =>
    exfalso
    have hnot : (verifyHealth unmarshal (expectedVersion version cfg.image) rounds).isOk = false := by
      rw [hhealth]
      rfl
    unfold switchVersionTo switchVersion at h
    dsimp only at h
    rw [hnot] at h
    split at h
    · cases h
    · split at h
      · cases h
      · split at h
        · cases h
        · split at h
          · cases h
          · cases h

end

/-- The body of a healthy instance. -/
def healthyBody : Text := "\x7b\"status\":\"healthy\",\"version\":\"1.1.10\"\x7d".toList

/-- `json.Unmarshal`, as far as it is called on the body. -/
def unmarshalHealthy : UnmarshalMap := fun body =>
  if body = healthyBody then
    some [("status".toList, .string "healthy".toList), ("version".toList, .string "1.1.10".toList)]
  else none

/-- An instance of version 1.1.10 passes for 1.1.1. -/
theorem not_acceptsOnlyRequested_longer :
    ¬ AcceptsOnlyRequested unmarshalHealthy "1.1.1".toList healthyBody := by
  intro h
  obtain ⟨data, ver, hdata, hver, cand, hcand, hsame⟩ := h.check (by decide)
  obtain rfl := Option.some.inj hdata
  obtain rfl := Option.some.inj hver
  have halternatives : alternatives "1.1.1".toList = ["1.1.1".toList] := by decide
  rw [halternatives, List.mem_singleton] at hcand
  rw [hcand] at hsame
  revert hsame
  decide

end AltrStream.Installer
