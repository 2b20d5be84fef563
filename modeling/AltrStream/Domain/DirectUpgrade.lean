import AltrStream.Domain.Precedence

/-! # The direct upgrade

The releases that the channel allows are sorted, releases of one version are dropped but the first,
and the target is the last one that is newer than the current version.
-/
namespace AltrStream.Domain
open Foundations Python

inductive ReleaseChannel where
  | alpha
  | beta
  | stable
  deriving DecidableEq, Repr

structure ReleaseInfo where
  version : SemVer
  tagName : String
  deriving DecidableEq, Repr

structure UpgradePlan where
  currentVersion : SemVer
  targetVersion : Option SemVer
  updateAvailable : Bool
  channel : ReleaseChannel
  targetRelease : Option ReleaseInfo
  allReleases : List ReleaseInfo
  latestVersion : SemVer
  deriving DecidableEq, Repr

/-- `is_channel_allowed` -/
def isChannelAllowed (releaseChannel : ReleaseChannel) : ReleaseChannel → Bool
  | .alpha => true
  | .beta => releaseChannel = .beta || releaseChannel = .stable
  | .stable => releaseChannel = .stable

/-- One release of each version, the first. -/
def uniqueReleases (seenVersions : List SemVer) : List ReleaseInfo → List ReleaseInfo
  | [] => []
  | rel :: releases =>
    if seenVersions.any (·.same rel.version) then uniqueReleases seenVersions releases
    else rel :: uniqueReleases (rel.version :: seenVersions) releases

section
variable (u : Unicode)

namespace SemVer

def channel (v : SemVer) : ReleaseChannel :=
  match v.prerelease with
  | none => .stable
  | some prerelease =>
    let pre := u.lower prerelease
    if isIn "alpha" pre then .alpha
    else if isIn "beta" pre || isIn "rc" pre then .beta
    else .alpha

end SemVer

def newerReleases (currentVersion : SemVer) : List ReleaseInfo → Except String (List ReleaseInfo)
  | [] => .ok []
  | rel :: releases => do
    let newer ← SemVer.gt u rel.version currentVersion
    let rest ← newerReleases currentVersion releases
    return if newer then rel :: rest else rest

/-- The releases that the channel of the request, or that of the current version, allows. -/
def compatible (currentVersion : SemVer) (availableReleases : List ReleaseInfo)
    (channel : Option ReleaseChannel) : List ReleaseInfo :=
  availableReleases.filter fun rel =>
    isChannelAllowed (rel.version.channel u) (channel.getD (currentVersion.channel u))

def byVersion (a b : ReleaseInfo) : Except String Bool := SemVer.lt u a.version b.version

def resolveDirectUpgrade (currentVersion : SemVer) (availableReleases : List ReleaseInfo)
    (channel : Option ReleaseChannel) : Except String UpgradePlan := do
  let sorted ← sort (byVersion u) (compatible u currentVersion availableReleases channel)
  let releases := uniqueReleases [] sorted
  let newer ← newerReleases u currentVersion releases
  let latestAvailable := (releases.getLast?.map ReleaseInfo.version).getD currentVersion
  return {
    currentVersion
    targetVersion := newer.getLast?.map ReleaseInfo.version
    updateAvailable := newer.getLast?.isSome
    channel := channel.getD (currentVersion.channel u)
    targetRelease := newer.getLast?
    allReleases := releases
    latestVersion := (newer.getLast?.map ReleaseInfo.version).getD latestAvailable }

end

/-! ### What is claimed -/

/-- The version without its build metadata. -/
def SemVer.unbuilt (v : SemVer) : SemVer := { v with build := none }

/-- The versions that a plan reports, up to build metadata. -/
structure Reported where
  currentVersion : SemVer
  targetVersion : Option SemVer
  updateAvailable : Bool
  targetRelease : Option SemVer
  allReleases : List SemVer
  latestVersion : SemVer
  deriving DecidableEq, Repr

def UpgradePlan.reported (plan : UpgradePlan) : Reported where
  currentVersion := plan.currentVersion.unbuilt
  targetVersion := plan.targetVersion.map SemVer.unbuilt
  updateAvailable := plan.updateAvailable
  targetRelease := plan.targetRelease.map fun rel => rel.version.unbuilt
  allReleases := plan.allReleases.map fun rel => rel.version.unbuilt
  latestVersion := plan.latestVersion.unbuilt

/-- The plan selects the maximum of the releases that the channel allows, whatever their order. -/
structure SelectsMaximum (u : Unicode) (currentVersion : SemVer) (available : List ReleaseInfo)
    (channel : Option ReleaseChannel) (plan : UpgradePlan) : Prop where
  resolved : resolveDirectUpgrade u currentVersion available channel = .ok plan
  offered : plan.updateAvailable ↔ ∃ rel ∈ compatible u currentVersion available channel,
    SemVer.gt u rel.version currentVersion = .ok true
  target : plan.updateAvailable → ∃ rel ∈ compatible u currentVersion available channel,
    plan.targetRelease = some rel ∧ plan.targetVersion = some rel.version ∧
      SemVer.gt u rel.version currentVersion = .ok true ∧
      ∀ other ∈ compatible u currentVersion available channel,
        ¬ SemVer.precedence .ascii rel.version < SemVer.precedence .ascii other.version
  increasing : plan.allReleases.Pairwise fun a b =>
    SemVer.precedence .ascii a.version < SemVer.precedence .ascii b.version
  once : ∀ rel ∈ compatible u currentVersion available channel,
    plan.allReleases.countP (·.version.same rel.version) = 1
  only : ∀ rel ∈ plan.allReleases, rel ∈ compatible u currentVersion available channel
  permuted : ∀ other : List ReleaseInfo, other.Perm available →
    ∃ plan', resolveDirectUpgrade u currentVersion other channel = .ok plan' ∧
      plan'.reported = plan.reported

/-- `int` reads the numeric identifiers that decide between two allowed versions, and between an
allowed version and the current one. -/
def Resolvable (u : Unicode) (currentVersion : SemVer) (available : List ReleaseInfo)
    (channel : Option ReleaseChannel) : Prop :=
  ∀ rel ∈ compatible u currentVersion available channel,
    (∀ other ∈ compatible u currentVersion available channel,
      SemVer.Deciding (SemVer.Bounded u) rel.version other.version) ∧
    SemVer.Deciding (SemVer.Bounded u) rel.version currentVersion

/-- The version of the release is in the ASCII grammar. -/
def ReleaseInfo.Ascii (u : Unicode) (rel : ReleaseInfo) : Prop :=
  SemVer.Parsed u rel.version ∧ rel.version.Ascii

section
variable {u : Unicode} {currentVersion : SemVer}

/-- The order of releases is that of the precedence of their versions. -/
def ReleaseInfo.key (rel : ReleaseInfo) : SemVer.Precedence := SemVer.precedence .ascii rel.version

theorem byVersion_eq (tables : AsciiTables u) {a b : ReleaseInfo} (ha : a.Ascii u) (hb : b.Ascii u)
    (h : Compares (byVersion u) a b) :
    byVersion u a b = .ok (decide (a.key < b.key)) ∧ a.version.same b.version = decide (a.key = b.key) := by
  have hcomparable := SemVer.Ascii.comparable tables ha.1 hb.1 ha.2 hb.2 h
  have hless := SemVer.lt_eq tables ha.1 hb.1 hcomparable
  have hsame := SemVer.same_eq hcomparable
  rw [ha.2.precedence_eq tables, hb.2.precedence_eq tables] at hless hsame
  exact ⟨hless, hsame⟩

theorem follows (tables : AsciiTables u) :
    FollowsKey (byVersion u) ReleaseInfo.key (ReleaseInfo.Ascii u) where
  answer ha hb h := by
    rw [(byVersion_eq tables ha hb ⟨_, h⟩).1] at h
    rw [← Except.ok.inj h, decide_eq_true_eq]
  refl ha := (SemVer.answers_iff tables ha.1 ha.1).2 (SemVer.deciding_self _)
  symm ha hb h := (SemVer.answers_iff tables hb.1 ha.1).2
    (((SemVer.answers_iff tables ha.1 hb.1).1 h).symm SemVer.Bounded.symm)
  trans ha hb hc hab hbc h₁ h₂ := by
    obtain ⟨hlessAB, hsameAB⟩ := byVersion_eq tables ha hb h₁
    obtain ⟨hlessBC, hsameBC⟩ := byVersion_eq tables hb hc h₂
    rcases hab.eq_or_lt with hab | hab
    · rw [decide_eq_true hab] at hsameAB
      rw [Compares, byVersion, (SemVer.lt_congr hsameAB).1]
      exact h₂
    · rcases hbc.eq_or_lt with hbc | hbc
      · rw [decide_eq_true hbc] at hsameBC
        rw [Compares, byVersion, ← (SemVer.lt_congr hsameBC).2]
        exact h₁
      · rw [decide_eq_true hab] at hlessAB
        rw [decide_eq_true hbc] at hlessBC
        exact ⟨true, SemVer.lt_transitive hlessAB hlessBC⟩

/-! ### Unique releases -/

theorem uniqueReleases_sublist (seen : List SemVer) (releases : List ReleaseInfo) :
    (uniqueReleases seen releases).Sublist releases := by
  induction releases generalizing seen with
  | nil => exact .slnil
  | cons rel releases ih =>
    rw [uniqueReleases]
    split_ifs
    · exact (ih seen).cons rel
    · exact (ih _).cons_cons rel

/-- Every version is seen before or is kept once. -/
theorem exists_unique_release {seen : List SemVer} {releases : List ReleaseInfo} {rel : ReleaseInfo}
    (h : rel ∈ releases) : (∃ v ∈ seen, v.same rel.version) ∨
      ∃ kept ∈ uniqueReleases seen releases, kept.version.same rel.version := by
  induction releases generalizing seen with
  | nil => cases h
  | cons first releases ih =>
    rw [uniqueReleases]
    rcases List.mem_cons.1 h with rfl | h
    · split_ifs with hseen
      · obtain ⟨v, hv, hsame⟩ := List.any_eq_true.1 hseen
        exact .inl ⟨v, hv, hsame⟩
      · exact .inr ⟨rel, List.mem_cons_self, SemVer.same_iff.2 rfl⟩
    · split_ifs with hseen
      · exact ih h
      · rcases @ih (first.version :: seen) h with ⟨v, hv, hsame⟩ | ⟨kept, hkept, hsame⟩
        · rcases List.mem_cons.1 hv with rfl | hv
          · exact .inr ⟨first, List.mem_cons_self, hsame⟩
          · exact .inl ⟨v, hv, hsame⟩
        · exact .inr ⟨kept, List.mem_cons_of_mem _ hkept, hsame⟩

theorem not_same_of_seen {seen : List SemVer} {releases : List ReleaseInfo} {kept : ReleaseInfo}
    (h : kept ∈ uniqueReleases seen releases) : ∀ v ∈ seen, v.same kept.version = false := by
  induction releases generalizing seen with
  | nil => cases h
  | cons first releases ih =>
    rw [uniqueReleases] at h
    split_ifs at h with hseen
    · exact ih h
    · rcases List.mem_cons.1 h with rfl | h
      · intro v hv
        rw [Bool.eq_false_iff]
        exact fun hsame => hseen (List.any_eq_true.2 ⟨v, hv, hsame⟩)
      · exact fun v hv => ih h v (List.mem_cons_of_mem _ hv)

theorem pairwise_not_same (seen : List SemVer) (releases : List ReleaseInfo) :
    (uniqueReleases seen releases).Pairwise fun a b => a.version.same b.version = false := by
  induction releases generalizing seen with
  | nil => exact .nil
  | cons rel releases ih =>
    rw [uniqueReleases]
    split_ifs
    · exact ih seen
    · exact .cons (fun kept hkept => not_same_of_seen hkept _ List.mem_cons_self) (ih _)

/-! ### Newer releases -/

theorem newerReleases_eq_ok {releases newer : List ReleaseInfo} :
    newerReleases u currentVersion releases = .ok newer ↔
      (∀ rel ∈ releases, ∃ greater, SemVer.gt u rel.version currentVersion = .ok greater) ∧
        newer = releases.filter fun rel => SemVer.gt u rel.version currentVersion = .ok true := by
  induction releases generalizing newer with
  | nil => simp [newerReleases, eq_comm]
  | cons rel releases ih =>
    simp only [newerReleases, bind_eq_ok, pure_eq_ok, List.forall_mem_cons]
    constructor
    · rintro ⟨greater, hgreater, rest, hrest, rfl⟩
      obtain ⟨hanswers, rfl⟩ := ih.1 hrest
      refine ⟨⟨⟨greater, hgreater⟩, hanswers⟩, ?_⟩
      rw [List.filter_cons, hgreater]
      cases greater <;> simp
    · rintro ⟨⟨⟨greater, hgreater⟩, hanswers⟩, rfl⟩
      refine ⟨greater, hgreater, _, ih.2 ⟨hanswers, rfl⟩, ?_⟩
      rw [List.filter_cons, hgreater]
      cases greater <;> simp

theorem gt_answers_iff {a b : SemVer} : (∃ greater, SemVer.gt u a b = .ok greater) ↔ Compares (SemVer.lt u) a b := by
  constructor
  · rintro ⟨greater, h⟩
    obtain ⟨less, hless, -⟩ := bind_eq_ok.1 h
    exact ⟨less, hless⟩
  · rintro ⟨less, hless⟩
    exact ⟨_, SemVer.gt_eq_ok hless⟩

/-- The plan for sorted releases of different versions. -/
def planOf (u : Unicode) (currentVersion : SemVer) (channel : ReleaseChannel)
    (releases : List ReleaseInfo) : UpgradePlan :=
  let newer := releases.filter fun rel => SemVer.gt u rel.version currentVersion = .ok true
  let latestAvailable := (releases.getLast?.map ReleaseInfo.version).getD currentVersion
  { currentVersion
    targetVersion := newer.getLast?.map ReleaseInfo.version
    updateAvailable := newer.getLast?.isSome
    channel
    targetRelease := newer.getLast?
    allReleases := releases
    latestVersion := (newer.getLast?.map ReleaseInfo.version).getD latestAvailable }

theorem resolveDirectUpgrade_eq_ok {available : List ReleaseInfo} {channel : Option ReleaseChannel}
    {plan : UpgradePlan} : resolveDirectUpgrade u currentVersion available channel = .ok plan ↔
      ∃ sorted, sort (byVersion u) (compatible u currentVersion available channel) = .ok sorted ∧
        (∀ rel ∈ uniqueReleases [] sorted, Compares (SemVer.lt u) rel.version currentVersion) ∧
        planOf u currentVersion (channel.getD (currentVersion.channel u)) (uniqueReleases [] sorted) =
          plan := by
  simp only [resolveDirectUpgrade, bind_eq_ok, pure_eq_ok, newerReleases_eq_ok, gt_answers_iff]
  constructor
  · rintro ⟨sorted, hsorted, newer, ⟨hanswers, rfl⟩, rfl⟩
    exact ⟨sorted, hsorted, hanswers, rfl⟩
  · rintro ⟨sorted, hsorted, hanswers, rfl⟩
    exact ⟨sorted, hsorted, _, ⟨hanswers, rfl⟩, rfl⟩

/-! ### The maximum -/

/-- Versions that are the same have the same key. -/
theorem key_eq_of_same {a b : ReleaseInfo} (h : a.version.same b.version) : a.key = b.key := by
  have h := SemVer.same_iff.1 h
  simp only [Prod.mk.injEq] at h
  obtain ⟨hmajor, hminor, hpatch, hprerelease⟩ := h
  simp only [ReleaseInfo.key, SemVer.precedence, hmajor, hminor, hpatch, hprerelease]

theorem unbuilt_eq_of_same {a b : SemVer} (h : a.same b) : a.unbuilt = b.unbuilt := by
  have h := SemVer.same_iff.1 h
  simp only [Prod.mk.injEq] at h
  obtain ⟨hmajor, hminor, hpatch, hprerelease⟩ := h
  simp only [SemVer.unbuilt, hmajor, hminor, hpatch, hprerelease]

theorem gt_congr {a b c : SemVer} (h : a.same b) : SemVer.gt u a c = SemVer.gt u b c := by
  have hsame : a.same c = b.same c := by
    rw [Bool.eq_iff_iff, SemVer.same_iff, SemVer.same_iff, SemVer.same_iff.1 h]
  rw [SemVer.gt, SemVer.gt, hsame, (SemVer.lt_congr h).1]

section
variable {allowed sorted : List ReleaseInfo}

/-- The unique releases of sorted ones are strictly increasing. -/
theorem uniqueReleases_increasing (tables : AsciiTables u) (hgood : ∀ rel ∈ sorted, rel.Ascii u)
    (hsorted : sorted.Pairwise (Upto (byVersion u) ReleaseInfo.key)) :
    (uniqueReleases [] sorted).Pairwise fun a b => a.key < b.key := by
  have hsub := uniqueReleases_sublist [] sorted
  have hpairs := (hsorted.sublist hsub).and (pairwise_not_same [] sorted)
  refine hpairs.imp_of_mem fun {a b} ha hb h => ?_
  obtain ⟨⟨hle, hanswers⟩, hdifferent⟩ := h
  refine lt_of_le_of_ne hle fun hkey => ?_
  rw [(byVersion_eq tables (hgood a (hsub.subset ha)) (hgood b (hsub.subset hb)) hanswers).2,
    decide_eq_true hkey] at hdifferent
  cases hdifferent

theorem exists_kept (hperm : sorted.Perm allowed) {rel : ReleaseInfo} (h : rel ∈ allowed) :
    ∃ kept ∈ uniqueReleases [] sorted, kept.version.same rel.version := by
  rcases @exists_unique_release [] sorted rel (hperm.mem_iff.2 h) with ⟨v, hv, -⟩ | hkept
  · cases hv
  · exact hkept

theorem mem_of_mem_uniqueReleases (hperm : sorted.Perm allowed) {rel : ReleaseInfo}
    (h : rel ∈ uniqueReleases [] sorted) : rel ∈ allowed :=
  hperm.mem_iff.1 ((uniqueReleases_sublist [] sorted).subset h)

/-- In a strictly increasing list a version stands once. -/
theorem countP_same {releases : List ReleaseInfo} (hincreasing : releases.Pairwise fun a b => a.key < b.key)
    {kept rel : ReleaseInfo} (hkept : kept ∈ releases) (hsame : kept.version.same rel.version) :
    releases.countP (·.version.same rel.version) = 1 := by
  obtain ⟨before, after, rfl⟩ := List.append_of_mem hkept
  obtain ⟨hbefore, hafter, hacross⟩ := List.pairwise_append.1 hincreasing
  have hkey := key_eq_of_same hsame
  have hbeforeZero : before.countP (·.version.same rel.version) = 0 := by
    refine List.countP_eq_zero.2 fun other hother hsameOther => ?_
    have hlt := hacross other hother kept List.mem_cons_self
    exact hlt.ne ((key_eq_of_same hsameOther).trans hkey.symm)
  have hafterZero : after.countP (·.version.same rel.version) = 0 := by
    refine List.countP_eq_zero.2 fun other hother hsameOther => ?_
    have hlt := (List.pairwise_cons.1 hafter).1 other hother
    exact hlt.ne' ((key_eq_of_same hsameOther).trans hkey.symm)
  rw [List.countP_append, hbeforeZero, List.countP_cons, hafterZero, if_pos hsame]

end

theorem gt_eq_true_iff {a b : SemVer} :
    SemVer.gt u a b = .ok true ↔ SemVer.lt u a b = .ok false ∧ a.same b = false := by
  constructor
  · intro h
    obtain ⟨less, hless, hgreater⟩ := bind_eq_ok.1 h
    have hboth := pure_eq_ok.1 hgreater
    rw [Bool.and_eq_true, Bool.not_eq_true', Bool.not_eq_true'] at hboth
    rw [hboth.1] at hless
    exact ⟨hless, hboth.2⟩
  · rintro ⟨hless, hsame⟩
    rw [SemVer.gt_eq_ok hless, hsame]
    rfl

/-- What comes after a newer version is newer. -/
theorem gt_of_lt {a b c : SemVer} (hab : SemVer.lt u a b = .ok true) (hac : SemVer.gt u a c = .ok true)
    (hbc : Compares (SemVer.lt u) b c) : SemVer.gt u b c = .ok true := by
  obtain ⟨hless, -⟩ := gt_eq_true_iff.1 hac
  obtain ⟨less, hlessBC⟩ := hbc
  rw [gt_eq_true_iff, hlessBC]
  refine ⟨?_, ?_⟩
  · cases less with
    | false => rfl
    | true =>
      rw [SemVer.lt_transitive hab hlessBC] at hless
      cases hless
  · rw [Bool.eq_false_iff]
    intro hsame
    rw [(SemVer.lt_congr hsame).2, hless] at hab
    cases hab

/-- The last of the newer releases has no greater one among them all. -/
theorem not_lt_of_last (tables : AsciiTables u) {releases : List ReleaseInfo}
    (hgood : ∀ rel ∈ releases, rel.Ascii u)
    (hincreasing : releases.Pairwise fun a b => a.key < b.key)
    (hcompared : ∀ a ∈ releases, ∀ b ∈ releases, Compares (byVersion u) a b)
    (hanswers : ∀ rel ∈ releases, Compares (SemVer.lt u) rel.version currentVersion)
    {highest other : ReleaseInfo} (hother : other ∈ releases)
    (hlast : (releases.filter fun rel => SemVer.gt u rel.version currentVersion = .ok true).getLast? =
      some highest) : ¬ highest.key < other.key := by
  intro hlt
  have hnewer := hincreasing.filter fun rel => SemVer.gt u rel.version currentVersion = .ok true
  have hmem := List.mem_of_getLast? hlast
  obtain ⟨hhighest, hgreater⟩ := List.mem_filter.1 hmem
  have hgreater := of_decide_eq_true hgreater
  have hless := (byVersion_eq tables (hgood _ hhighest) (hgood _ hother)
    (hcompared _ hhighest _ hother)).1
  rw [decide_eq_true hlt] at hless
  have hotherNewer := gt_of_lt hless hgreater (hanswers other hother)
  have hotherMem : other ∈ releases.filter fun rel => SemVer.gt u rel.version currentVersion = .ok true :=
    List.mem_filter.2 ⟨hother, decide_eq_true hotherNewer⟩
  obtain ⟨init, hinit⟩ := List.getLast?_eq_some_iff.1 hlast
  rw [hinit] at hnewer hotherMem
  rcases List.mem_append.1 hotherMem with hbefore | hsingle
  · have hle := (List.pairwise_append.1 hnewer).2.2 other hbefore highest (List.mem_singleton.2 rfl)
    exact hlt.asymm hle
  · rw [List.mem_singleton.1 hsingle] at hlt
    exact hlt.false

/-! ### Permutations -/

/-- Strictly increasing releases of the same versions are the same up to build metadata. -/
theorem map_unbuilt_eq {releases others : List ReleaseInfo}
    (hreleases : releases.Pairwise fun a b => a.key < b.key)
    (hothers : others.Pairwise fun a b => a.key < b.key)
    (hleft : ∀ rel ∈ releases, ∃ other ∈ others, other.version.same rel.version)
    (hright : ∀ other ∈ others, ∃ rel ∈ releases, rel.version.same other.version) :
    releases.map (fun rel => rel.version.unbuilt) = others.map fun rel => rel.version.unbuilt := by
  induction releases generalizing others with
  | nil =>
    cases others with
    | nil => rfl
    | cons other others =>
      obtain ⟨rel, hrel, -⟩ := hright other List.mem_cons_self
      cases hrel
  | cons rel releases ih =>
    cases others with
    | nil =>
      obtain ⟨other, hother, -⟩ := hleft rel List.mem_cons_self
      cases hother
    | cons other others =>
      obtain ⟨hfirst, hreleases⟩ := List.pairwise_cons.1 hreleases
      obtain ⟨hfirst', hothers⟩ := List.pairwise_cons.1 hothers
      have hheads : other.version.same rel.version := by
        obtain ⟨match₁, hmatch₁, hsame₁⟩ := hleft rel List.mem_cons_self
        obtain ⟨match₂, hmatch₂, hsame₂⟩ := hright other List.mem_cons_self
        rcases List.mem_cons.1 hmatch₁ with rfl | hmatch₁
        · exact hsame₁
        · have hlt := hfirst' _ hmatch₁
          rw [key_eq_of_same hsame₁, ← key_eq_of_same hsame₂] at hlt
          rcases List.mem_cons.1 hmatch₂ with rfl | hmatch₂
          · exact absurd hlt (lt_irrefl _)
          · exact absurd (hfirst _ hmatch₂) hlt.asymm
      have hkey := key_eq_of_same hheads
      rw [List.map_cons, List.map_cons, unbuilt_eq_of_same hheads]
      refine congrArg _ (ih hreleases hothers (fun r hr => ?_) fun r hr => ?_)
      · obtain ⟨x, hx, hsame⟩ := hleft r (List.mem_cons_of_mem _ hr)
        rcases List.mem_cons.1 hx with rfl | hx
        · exact absurd ((key_eq_of_same hsame).symm.trans hkey) (hfirst r hr).ne'
        · exact ⟨x, hx, hsame⟩
      · obtain ⟨x, hx, hsame⟩ := hright r (List.mem_cons_of_mem _ hr)
        rcases List.mem_cons.1 hx with rfl | hx
        · exact absurd ((key_eq_of_same hsame).symm.trans hkey.symm) (hfirst' r hr).ne'
        · exact ⟨x, hx, hsame⟩

/-- What is reported for versions in order. -/
def reportOf (u : Unicode) (currentVersion : SemVer) (versions : List SemVer) : Reported :=
  let newer := versions.filter fun v => SemVer.gt u v currentVersion = .ok true
  { currentVersion := currentVersion.unbuilt
    targetVersion := newer.getLast?
    updateAvailable := newer.getLast?.isSome
    targetRelease := newer.getLast?
    allReleases := versions
    latestVersion := newer.getLast?.getD (versions.getLast?.getD currentVersion.unbuilt) }

theorem reported_planOf (channel : ReleaseChannel) (releases : List ReleaseInfo) :
    (planOf u currentVersion channel releases).reported =
      reportOf u currentVersion (releases.map fun rel => rel.version.unbuilt) := by
  have hnewer : (releases.map fun rel => rel.version.unbuilt).filter
      (fun v => SemVer.gt u v currentVersion = .ok true) =
        (releases.filter fun rel => SemVer.gt u rel.version currentVersion = .ok true).map
          fun rel => rel.version.unbuilt := by
    rw [List.filter_map]
    rfl
  unfold UpgradePlan.reported planOf reportOf
  simp only [hnewer, List.getLast?_map, Option.map_map, Option.isSome_map]
  cases (releases.filter fun rel => SemVer.gt u rel.version currentVersion = .ok true).getLast? with
  | none =>
    cases releases.getLast? <;> rfl
  | some highest => rfl

/-! ### The plan -/

section
variable {available : List ReleaseInfo} {channel : Option ReleaseChannel}

/-- What comparing the allowed releases needs, by the comparisons themselves. -/
theorem resolvable_iff (tables : AsciiTables u) (hcurrent : SemVer.Parsed u currentVersion)
    (hgood : ∀ rel ∈ available, rel.Ascii u) :
    Resolvable u currentVersion available channel ↔
      ∀ rel ∈ compatible u currentVersion available channel,
        (∀ other ∈ compatible u currentVersion available channel, Compares (byVersion u) rel other) ∧
          Compares (SemVer.lt u) rel.version currentVersion := by
  have hparsed : ∀ rel ∈ compatible u currentVersion available channel, SemVer.Parsed u rel.version :=
    fun rel hrel => (hgood rel (List.mem_filter.1 hrel).1).1
  refine forall₂_congr fun rel hrel => and_congr (forall₂_congr fun other hother => ?_) ?_
  · exact (SemVer.answers_iff tables (hparsed rel hrel) (hparsed other hother)).symm
  · exact (SemVer.answers_iff tables (hparsed rel hrel) hcurrent).symm

/-- The plan exists if everything that is compared can be. -/
theorem resolves_iff (tables : AsciiTables u) (hcurrent : SemVer.Parsed u currentVersion)
    (hgood : ∀ rel ∈ available, rel.Ascii u) :
    (∃ plan, resolveDirectUpgrade u currentVersion available channel = .ok plan) ↔
      Resolvable u currentVersion available channel := by
  have hallowed : ∀ rel ∈ compatible u currentVersion available channel, rel.Ascii u :=
    fun rel hrel => hgood rel (List.mem_filter.1 hrel).1
  rw [resolvable_iff tables hcurrent hgood]
  constructor
  · rintro ⟨plan, hplan⟩ rel hrel
    obtain ⟨sorted, hsorted, hanswers, -⟩ := resolveDirectUpgrade_eq_ok.1 hplan
    refine ⟨(sort_succeeds_iff (follows tables) hallowed).1 ⟨sorted, hsorted⟩ rel hrel, ?_⟩
    obtain ⟨kept, hkept, hsame⟩ := exists_kept (sort_eq_ok (follows tables) hallowed hsorted).1 hrel
    rw [Compares, ← (SemVer.lt_congr hsame).1]
    exact hanswers kept hkept
  · intro h
    obtain ⟨sorted, hsorted⟩ := sort_succeeds (follows tables) hallowed fun a ha => (h a ha).1
    have hperm := (sort_eq_ok (follows tables) hallowed hsorted).1
    exact ⟨_, resolveDirectUpgrade_eq_ok.2 ⟨sorted, hsorted,
      fun rel hrel => (h rel (mem_of_mem_uniqueReleases hperm hrel)).2, rfl⟩⟩

/-- Another order of the releases gives the same report. -/
theorem reported_perm (tables : AsciiTables u) (hgood : ∀ rel ∈ available, rel.Ascii u)
    {others : List ReleaseInfo} (hothers : others.Perm available) {plan plan' : UpgradePlan}
    (hplan : resolveDirectUpgrade u currentVersion available channel = .ok plan)
    (hplan' : resolveDirectUpgrade u currentVersion others channel = .ok plan') :
    plan'.reported = plan.reported := by
  have hcompatible : (compatible u currentVersion others channel).Perm
      (compatible u currentVersion available channel) := hothers.filter _
  have hallowed : ∀ rel ∈ compatible u currentVersion available channel, rel.Ascii u :=
    fun rel hrel => hgood rel (List.mem_filter.1 hrel).1
  have hallowed' : ∀ rel ∈ compatible u currentVersion others channel, rel.Ascii u :=
    fun rel hrel => hallowed rel (hcompatible.mem_iff.1 hrel)
  obtain ⟨sorted, hsorted, -, rfl⟩ := resolveDirectUpgrade_eq_ok.1 hplan
  obtain ⟨sorted', hsorted', -, rfl⟩ := resolveDirectUpgrade_eq_ok.1 hplan'
  obtain ⟨hperm, hpairs⟩ := sort_eq_ok (follows tables) hallowed hsorted
  obtain ⟨hperm', hpairs'⟩ := sort_eq_ok (follows tables) hallowed' hsorted'
  have hsortedGood : ∀ rel ∈ sorted, rel.Ascii u := fun rel hrel => hallowed rel (hperm.mem_iff.1 hrel)
  have hsortedGood' : ∀ rel ∈ sorted', rel.Ascii u :=
    fun rel hrel => hallowed' rel (hperm'.mem_iff.1 hrel)
  rw [reported_planOf, reported_planOf]
  refine congrArg _ (map_unbuilt_eq (uniqueReleases_increasing tables hsortedGood' hpairs')
    (uniqueReleases_increasing tables hsortedGood hpairs) (fun rel hrel => ?_) fun rel hrel => ?_)
  · exact exists_kept hperm (hcompatible.mem_iff.1 (mem_of_mem_uniqueReleases hperm' hrel))
  · exact exists_kept hperm' (hcompatible.mem_iff.2 (mem_of_mem_uniqueReleases hperm hrel))

theorem Resolvable.selectsMaximum (tables : AsciiTables u) (hcurrent : SemVer.Parsed u currentVersion)
    (hgood : ∀ rel ∈ available, rel.Ascii u) (h : Resolvable u currentVersion available channel) :
    ∃ plan, SelectsMaximum u currentVersion available channel plan := by
  have hanswers := (resolvable_iff tables hcurrent hgood).1 h
  have hallowed : ∀ rel ∈ compatible u currentVersion available channel, rel.Ascii u :=
    fun rel hrel => hgood rel (List.mem_filter.1 hrel).1
  obtain ⟨plan, hplan⟩ := (resolves_iff tables hcurrent hgood).2 h
  obtain ⟨sorted, hsorted, hcompared, rfl⟩ := resolveDirectUpgrade_eq_ok.1 hplan
  obtain ⟨hperm, hpairs⟩ := sort_eq_ok (follows tables) hallowed hsorted
  have hmem : ∀ rel ∈ uniqueReleases [] sorted,
      rel ∈ compatible u currentVersion available channel :=
    fun rel hrel => mem_of_mem_uniqueReleases hperm hrel
  have hincreasing := uniqueReleases_increasing tables
    (fun rel hrel => hallowed rel (hperm.mem_iff.1 hrel)) hpairs
  refine ⟨_, hplan, ⟨fun hsome => ?_, ?_⟩, fun hsome => ?_, hincreasing, fun rel hrel => ?_, hmem,
    fun others hothers => ?_⟩
  · obtain ⟨highest, hlast⟩ := Option.isSome_iff_exists.1 hsome
    obtain ⟨hhighest, hnewer⟩ := List.mem_filter.1 (List.mem_of_getLast? hlast)
    exact ⟨highest, hmem highest hhighest, of_decide_eq_true hnewer⟩
  · rintro ⟨rel, hrel, hnewer⟩
    obtain ⟨kept, hkept, hsame⟩ := exists_kept hperm hrel
    have hkeptNewer : kept ∈ (uniqueReleases [] sorted).filter fun rel =>
        SemVer.gt u rel.version currentVersion = .ok true :=
      List.mem_filter.2 ⟨hkept, decide_eq_true ((gt_congr hsame).trans hnewer)⟩
    exact List.getLast?_isSome.2 (List.ne_nil_of_mem hkeptNewer)
  · obtain ⟨highest, hlast⟩ := Option.isSome_iff_exists.1 hsome
    obtain ⟨hhighest, hnewer⟩ := List.mem_filter.1 (List.mem_of_getLast? hlast)
    refine ⟨highest, hmem highest hhighest, hlast, congrArg (Option.map ReleaseInfo.version) hlast,
      of_decide_eq_true hnewer, fun other hother => ?_⟩
    obtain ⟨kept, hkept, hsame⟩ := exists_kept hperm hother
    have hlt := not_lt_of_last tables (fun rel hrel => hallowed rel (hmem rel hrel)) hincreasing
      (fun a ha b hb => (hanswers a (hmem a ha)).1 b (hmem b hb)) hcompared hkept hlast
    rwa [key_eq_of_same hsame] at hlt
  · obtain ⟨kept, hkept, hsame⟩ := exists_kept hperm hrel
    exact countP_same hincreasing hkept hsame
  · have hgoodOthers : ∀ rel ∈ others, rel.Ascii u := fun rel hrel => hgood rel (hothers.mem_iff.1 hrel)
    have hresolvable : Resolvable u currentVersion others channel := by
      intro rel hrel
      have hcompatible : ∀ r, r ∈ compatible u currentVersion others channel ↔
          r ∈ compatible u currentVersion available channel := fun r => (hothers.filter _).mem_iff
      obtain ⟨hpairs, hcurrentRel⟩ := h rel ((hcompatible rel).1 hrel)
      exact ⟨fun other hother => hpairs other ((hcompatible other).1 hother), hcurrentRel⟩
    obtain ⟨plan', hplan'⟩ := (resolves_iff tables hcurrent hgoodOthers).2 hresolvable
    exact ⟨plan', hplan', reported_perm tables hgood hothers hplan hplan'⟩

/-- The plan selects the maximum, whatever the order of the releases, if `int` reads the numeric
identifiers that decide between the versions. -/
theorem selectsMaximum_iff (tables : AsciiTables u) (hcurrent : SemVer.Parsed u currentVersion)
    (hgood : ∀ rel ∈ available, rel.Ascii u) :
    (∃ plan, SelectsMaximum u currentVersion available channel plan) ↔
      Resolvable u currentVersion available channel := by
  refine ⟨?_, Resolvable.selectsMaximum tables hcurrent hgood⟩
  rintro ⟨plan, h⟩
  exact (resolves_iff tables hcurrent hgood).1 ⟨plan, h.resolved⟩

end

end

def tagged (text : String) (v : SemVer) : ReleaseInfo := { version := v, tagName := text }

theorem selectsMaximum_iff_beta : ∃ plan, SelectsMaximum .ascii { major := 1, minor := 0, patch := 0 }
    [tagged "v1.2.0-beta.1" { major := 1, minor := 2, patch := 0, prerelease := some "beta.1" },
      tagged "v1.1.0" { major := 1, minor := 1, patch := 0 }] (some .beta) plan := by
  refine (selectsMaximum_iff asciiTables_ascii ⟨"1.0.0", by decide⟩ ?_).2 ?_
  · rintro rel hrel
    rcases List.mem_cons.1 hrel with rfl | hrel
    · refine ⟨⟨"v1.2.0-beta.1", by decide⟩, ?_⟩
      rintro p hp
      obtain rfl := Option.some.inj hp
      decide
    · obtain rfl := List.mem_singleton.1 hrel
      refine ⟨⟨"v1.1.0", by decide⟩, ?_⟩
      rintro p ⟨⟩
  · have hfirst : SemVer.Deciding (SemVer.Bounded .ascii)
        { major := 1, minor := 2, patch := 0, prerelease := some "beta.1" }
        { major := 1, minor := 1, patch := 0 } := fun hcore => absurd hcore (by decide)
    have hmem : ∀ rel, rel ∈ compatible .ascii { major := 1, minor := 0, patch := 0 }
        [tagged "v1.2.0-beta.1" { major := 1, minor := 2, patch := 0, prerelease := some "beta.1" },
          tagged "v1.1.0" { major := 1, minor := 1, patch := 0 }] (some .beta) →
        rel = tagged "v1.2.0-beta.1"
          { major := 1, minor := 2, patch := 0, prerelease := some "beta.1" } ∨
        rel = tagged "v1.1.0" { major := 1, minor := 1, patch := 0 } := by
      intro rel hrel
      simpa using (List.mem_filter.1 hrel).1
    intro rel hrel
    refine ⟨fun other hother => ?_, ?_⟩
    · rcases hmem rel hrel with rfl | rfl <;> rcases hmem other hother with rfl | rfl
      · exact SemVer.deciding_self _
      · exact hfirst
      · exact hfirst.symm SemVer.Bounded.symm
      · exact SemVer.deciding_self _
    · rcases hmem rel hrel with rfl | rfl
      · exact fun hcore => absurd hcore (by decide)
      · exact fun hcore => absurd hcore (by decide)

/-- A numeric identifier behind `1.0.0-` is read as it is. -/
theorem parsed_numeric {s : List Char} (hs : SemVer.isNumericIdent .ascii s) : SemVer.Parsed .ascii
    { major := 1, minor := 0, patch := 0, prerelease := some (String.ofList s) } := by
  have hdigits : ∀ c ∈ s, isspace c = false ∧ c ≠ '+' ∧ c ≠ '.' := by
    intro c hc
    obtain ⟨hlow, hhigh⟩ :=
      SemVer.digit_bounds (SemVer.isDecimal_of_isNumericIdent asciiTables_ascii hs c hc)
    have hall : ∀ n < 128, 48 ≤ n ∧ n ≤ 57 → isspace (Char.ofNat n) = false ∧ Char.ofNat n ≠ '+' ∧
        Char.ofNat n ≠ '.' := by decide
    have hchar := hall c.toNat (hhigh.trans_lt (by decide)) ⟨hlow, hhigh⟩
    rwa [Char.ofNat_toNat] at hchar
  have hchars : ∀ c ∈ '1' :: '.' :: '0' :: '.' :: '0' :: '-' :: s, isspace c = false ∧ c ≠ '+' := by
    have hbefore : ∀ c ∈ ['1', '.', '0', '.', '0', '-'], isspace c = false ∧ c ≠ '+' := by decide
    intro c hc
    have hmem : c ∈ ['1', '.', '0', '.', '0', '-'] ++ s := hc
    rcases List.mem_append.1 hmem with hmem | hmem
    · exact hbefore c hmem
    · exact ⟨(hdigits c hmem).1, (hdigits c hmem).2.1⟩
  have hstrip : stripChars ('1' :: '.' :: '0' :: '.' :: '0' :: '-' :: s) =
      '1' :: '.' :: '0' :: '.' :: '0' :: '-' :: s := by
    rw [stripChars, List.dropWhile_eq_self_iff.2, List.rdropWhile_eq_self_iff.2]
    · intro hne
      rw [(hchars _ (List.getLast_mem hne)).1]
      decide
    · intro _
      change ¬ isspace '1' = true
      decide
  have hplus : SemVer.cut '+' ('1' :: '.' :: '0' :: '.' :: '0' :: '-' :: s) =
      ('1' :: '.' :: '0' :: '.' :: '0' :: '-' :: s, none) := by
    have hall : ('1' :: '.' :: '0' :: '.' :: '0' :: '-' :: s).takeWhile (· ≠ '+') =
        '1' :: '.' :: '0' :: '.' :: '0' :: '-' :: s :=
      List.takeWhile_eq_self_iff.2 fun c hc => decide_eq_true (hchars c hc).2
    unfold SemVer.cut
    simp only [hall, List.drop_length]
  have hident : SemVer.identifiers (SemVer.isPrereleaseIdent .ascii) (some s) =
      some (some (String.ofList s)) := by
    have hsplit : s.splitOn '.' = [s] :=
      List.splitOn_eq_singleton fun h => (hdigits '.' h).2.2 rfl
    rw [SemVer.identifiers, hsplit]
    simp only [List.all_cons, List.all_nil, SemVer.isPrereleaseIdent, hs, Bool.true_or, Bool.and_true,
      if_true]
  have hhead : (if ('1' :: '.' :: '0' :: '.' :: '0' :: '-' :: s).head? = some 'v'
      then ('1' :: '.' :: '0' :: '.' :: '0' :: '-' :: s).tail
      else '1' :: '.' :: '0' :: '.' :: '0' :: '-' :: s) =
        '1' :: '.' :: '0' :: '.' :: '0' :: '-' :: s := if_neg (by simp)
  have hminus : SemVer.cut '-' ('1' :: '.' :: '0' :: '.' :: '0' :: '-' :: s) =
      (['1', '.', '0', '.', '0'], some s) := rfl
  have hcore : ['1', '.', '0', '.', '0'].splitOn '.' = [['1'], ['0'], ['0']] := by decide
  have hone : SemVer.number .ascii ['1'] = some 1 := by decide
  have hzero : SemVer.number .ascii ['0'] = some 0 := by decide
  refine ⟨String.ofList ('1' :: '.' :: '0' :: '.' :: '0' :: '-' :: s), ?_⟩
  unfold SemVer.tryParse
  simp only [strip, String.toList_ofList, hstrip, hhead, hplus, hminus, hcore, hident, hone, hzero]
  rfl

theorem isNumericIdent_replicate {d : Char} (hd : '1' ≤ d ∧ d ≤ '9') (n : ℕ) :
    SemVer.isNumericIdent .ascii (List.replicate (n + 1) d) := by
  have hrest : ∀ c ∈ List.replicate n d, Unicode.ascii.isDecimal c := by
    intro c hc
    rw [List.eq_of_mem_replicate hc]
    exact SemVer.isDecimal_digit asciiTables_ascii (le_trans (by decide) hd.1) hd.2
  rw [List.replicate_succ]
  unfold SemVer.isNumericIdent
  split
  case h_1 heq => cases heq
  case h_2 => rfl
  case h_3 c rest _ heq =>
    obtain ⟨rfl, rfl⟩ := List.cons.inj heq
    simp only [Bool.and_eq_true, decide_eq_true_eq, List.all_eq_true]
    exact ⟨hd, hrest⟩

/-- A pre-release of `1.0.0` with a number of 4301 digits. -/
def long (d : Char) : SemVer :=
  { major := 1, minor := 0, patch := 0, prerelease := some (String.ofList (List.replicate 4301 d)) }

def longReleases : List ReleaseInfo := [tagged "a" (long '1'), tagged "b" (long '2')]

theorem ascii_long {d : Char} (hd : '1' ≤ d ∧ d ≤ '9') (text : String) : (tagged text (long d)).Ascii .ascii := by
  refine ⟨parsed_numeric (isNumericIdent_replicate hd 4300), ?_⟩
  intro p hp c hc
  obtain rfl := Option.some.inj hp
  rw [String.toList_ofList] at hc
  rw [List.eq_of_mem_replicate hc]
  exact lt_of_le_of_lt (show d.toNat ≤ '9'.toNat from hd.2) (by decide)

theorem split_long {d : Char} (hd : d ≠ '.') : split '.' (String.ofList (List.replicate 4301 d)) =
    [String.ofList (List.replicate 4301 d)] := by
  have hsplit : (List.replicate 4301 d).splitOn '.' = [List.replicate 4301 d] :=
    List.splitOn_eq_singleton fun h => hd (List.eq_of_mem_replicate h).symm
  rw [split, String.toList_ofList, hsplit]
  rfl

theorem isNumeric_long {d : Char} (hd : d.isDigit) :
    SemVer.isNumeric .ascii (String.ofList (List.replicate 4301 d)) := by
  have hne : String.ofList (List.replicate 4301 d) ≠ "" := by
    intro h
    have hempty := congrArg String.toList h
    rw [String.toList_ofList] at hempty
    exact absurd ((List.replicate_eq_nil_iff d).1 hempty) (by decide)
  rw [SemVer.isNumeric, Bool.and_eq_true, decide_eq_true_eq, String.toList_ofList, List.all_eq_true]
  refine ⟨hne, fun c hc => ?_⟩
  rw [List.eq_of_mem_replicate hc]
  exact hd

theorem long_ne : String.ofList (List.replicate 4301 '1') ≠ String.ofList (List.replicate 4301 '2') := by
  intro h
  have hmem : '1' ∈ List.replicate 4301 '1' := List.mem_replicate.2 ⟨by decide, rfl⟩
  rw [String.ofList_injective h] at hmem
  exact absurd (List.eq_of_mem_replicate hmem) (by decide)

/-- `int` refuses the numbers of the two versions, so the releases cannot be sorted. -/
theorem not_selectsMaximum_long : (∀ rel ∈ longReleases, rel.Ascii .ascii) ∧
    ¬ ∃ plan, SelectsMaximum .ascii { major := 1, minor := 0, patch := 0 } longReleases (some .alpha)
      plan := by
  have hgood : ∀ rel ∈ longReleases, rel.Ascii .ascii := by
    intro rel hrel
    rcases List.mem_cons.1 hrel with rfl | hrel
    · exact ascii_long (by decide) "a"
    · obtain rfl := List.mem_singleton.1 hrel
      exact ascii_long (by decide) "b"
  refine ⟨hgood, ?_⟩
  rintro ⟨plan, h⟩
  have hresolvable := (resolves_iff asciiTables_ascii ⟨"1.0.0", by decide⟩ hgood).1 ⟨plan, h.resolved⟩
  have hmem : ∀ rel ∈ longReleases, rel ∈ compatible .ascii { major := 1, minor := 0, patch := 0 }
      longReleases (some .alpha) := fun rel hrel => List.mem_filter.2 ⟨hrel, rfl⟩
  have hdeciding := (hresolvable (tagged "a" (long '1')) (hmem _ List.mem_cons_self)).1
    (tagged "b" (long '2')) (hmem _ (List.mem_cons_of_mem _ List.mem_cons_self))
  have hbounded := hdeciding (by simp only [tagged, long]) _ _ rfl rfl [] _ [] _ []
    (split_long (by decide)) (split_long (by decide)) long_ne (isNumeric_long (by decide))
    (isNumeric_long (by decide))
  have hlength := hbounded.1
  rw [String.toList_ofList, List.length_replicate] at hlength
  omega

end AltrStream.Domain
