import AltrStream.Python.Str

/-! # `urllib.parse`

`urlsplit` and `urlunsplit`. Two checks of the network location rest on tables outside of it: the
addresses that `ipaddress` knows, and the characters that NFKC turns into delimiters.
-/
namespace AltrStream.Python

structure NetlocChecks where
  /-- The message with which `_check_bracketed_netloc` refuses. -/
  bracketed : List Char → Option String
  /-- Some character becomes a delimiter under NFKC. -/
  expands : List Char → Bool

structure SplitResult where
  scheme : List Char
  netloc : List Char
  path : List Char
  query : List Char
  fragment : List Char
  deriving DecidableEq, Repr

def isSchemeChar (c : Char) : Bool := c.isAlphanum || c = '+' || c = '-' || c = '.'

def endsNetloc (c : Char) : Bool := c = '/' || c = '?' || c = '#'

/-- Characters that `urlsplit` removes wherever they are. -/
def isUnsafe (c : Char) : Bool := c = '\t' || c = '\r' || c = '\n'

/-- `s.split(sep, 1)`; the second part is empty if there is no separator. -/
def splitOnce (sep : Char) (s : List Char) : List Char × List Char :=
  (s.takeWhile (· ≠ sep), (s.dropWhile (· ≠ sep)).drop 1)

/-- The scheme in lower case, and the rest. -/
def splitScheme (url : List Char) : List Char × List Char :=
  let (before, after) := splitOnce ':' url
  if ':' ∈ url ∧ before.head?.any Char.isAlpha ∧ before.all isSchemeChar then
    (before.map Char.toLower, after)
  else ([], url)

def usesNetloc : List String :=
  ["", "ftp", "http", "gopher", "nntp", "telnet", "imap", "wais", "file", "mms", "https", "shttp",
    "snews", "prospero", "rtsp", "rtsps", "rtspu", "rsync", "svn", "svn+ssh", "sftp", "nfs", "git",
    "git+ssh", "ws", "wss", "itms-services"]

section
variable (checks : NetlocChecks)

/-- The message of the `ValueError`. -/
def refusal (netloc : List Char) : Option String :=
  if netloc.contains '[' != netloc.contains ']' then some "Invalid IPv6 URL"
  else if netloc.contains '[' ∧ (checks.bracketed netloc).isSome then checks.bracketed netloc
  else if netloc.any (128 ≤ ·.toNat) ∧ checks.expands netloc then
    some ("netloc '" ++ String.ofList netloc ++
      "' contains invalid characters under NFKC normalization")
  else none

/-- `urlsplit` from where the network location is known. -/
def splitParts (scheme netloc url : List Char) : Except String SplitResult :=
  match refusal checks netloc with
  | some message => .error message
  | none =>
    let (url, fragment) := splitOnce '#' url
    let (path, query) := splitOnce '?' url
    .ok { scheme, netloc, path, query, fragment }

def urlsplit (url : List Char) : Except String SplitResult :=
  let url := (url.dropWhile (·.toNat ≤ 32)).filter (!isUnsafe ·)
  let (scheme, url) := splitScheme url
  if ['/', '/'].isPrefixOf url then
    splitParts checks scheme ((url.drop 2).takeWhile (!endsNetloc ·))
      ((url.drop 2).dropWhile (!endsNetloc ·))
  else splitParts checks scheme [] url

def urlunsplit (r : SplitResult) : List Char :=
  let url :=
    if r.netloc ≠ [] then
      '/' :: '/' :: r.netloc ++
        if r.path ≠ [] ∧ r.path.head? ≠ some '/' then '/' :: r.path else r.path
    else if ['/', '/'].isPrefixOf r.path then '/' :: '/' :: r.path
    else if r.scheme ≠ [] ∧ usesNetloc.contains (String.ofList r.scheme) ∧
        (r.path = [] ∨ r.path.head? = some '/') then '/' :: '/' :: r.path
    else r.path
  let url := if r.scheme ≠ [] then r.scheme ++ ':' :: url else url
  let url := if r.query ≠ [] then url ++ '?' :: r.query else url
  if r.fragment ≠ [] then url ++ '#' :: r.fragment else url

end

/-! ### A URL with a scheme -/

/-- A scheme as `urlsplit` accepts it. -/
def IsScheme (scheme : List Char) : Prop :=
  scheme.head?.any Char.isAlpha ∧ scheme.all isSchemeChar

theorem isSchemeChar_ne {c : Char} (h : isSchemeChar c) : c ≠ ':' ∧ isUnsafe c = false := by
  refine ⟨?_, Bool.eq_false_iff.2 fun hunsafe => ?_⟩
  · rintro rfl
    revert h
    decide
  · simp only [isUnsafe, Bool.or_eq_true, decide_eq_true_eq] at hunsafe
    rcases hunsafe with (rfl | rfl) | rfl <;> revert h <;> decide

theorem splitOnce_append {sep : Char} {before : List Char} (h : sep ∉ before) (after : List Char) :
    splitOnce sep (before ++ sep :: after) = (before, after) := by
  have hkeep : ∀ c ∈ before, decide (c ≠ sep) = true := fun c hc =>
    decide_eq_true (ne_of_mem_of_not_mem hc h)
  rw [splitOnce, List.takeWhile_append_of_pos hkeep, List.dropWhile_append_of_pos hkeep]
  simp

theorem splitOnce_of_not_mem {sep : Char} {s : List Char} (h : sep ∉ s) : splitOnce sep s = (s, []) := by
  have hkeep : ∀ c ∈ s, decide (c ≠ sep) = true := fun c hc =>
    decide_eq_true (ne_of_mem_of_not_mem hc h)
  rw [splitOnce, List.takeWhile_eq_self_iff.2 hkeep, List.dropWhile_eq_nil_iff.2 hkeep]
  rfl

theorem IsScheme.ne_nil {scheme : List Char} (h : IsScheme scheme) : scheme ≠ [] := by
  rintro rfl
  exact absurd h.1 (by decide)

theorem IsScheme.colon_not_mem {scheme : List Char} (h : IsScheme scheme) : ':' ∉ scheme :=
  fun hmem => (isSchemeChar_ne (List.all_eq_true.1 h.2 _ hmem)).1 rfl

theorem splitScheme_append {scheme : List Char} (h : IsScheme scheme) (after : List Char) :
    splitScheme (scheme ++ ':' :: after) = (scheme.map Char.toLower, after) := by
  unfold splitScheme
  rw [splitOnce_append h.colon_not_mem]
  exact if_pos ⟨by simp, h.1, h.2⟩

/-- Nothing of a scheme is removed. -/
theorem IsScheme.cleaned {scheme : List Char} (h : IsScheme scheme) (after : List Char) :
    ((scheme ++ after).dropWhile (·.toNat ≤ 32)).filter (!isUnsafe ·) =
      scheme ++ after.filter (!isUnsafe ·) := by
  obtain ⟨c, scheme, rfl⟩ := List.exists_cons_of_ne_nil h.ne_nil
  have hvisible : ¬ c.toNat ≤ 32 := by
    intro hle
    have halpha : c.isAlpha = true := by simpa using h.1
    delta Char.isAlpha Char.isUpper Char.isLower at halpha
    simp only [Bool.or_eq_true, Bool.and_eq_true, decide_eq_true_eq, UInt32.le_iff_toNat_le]
      at halpha
    have hval : c.val.toNat = c.toNat := rfl
    rw [hval] at halpha
    simp at halpha
    omega
  have hdrop : ((c :: scheme) ++ after).dropWhile (·.toNat ≤ 32) = (c :: scheme) ++ after := by
    rw [List.cons_append, List.dropWhile_cons_of_neg (by simpa using hvisible)]
  have hkept : (c :: scheme).filter (!isUnsafe ·) = c :: scheme := by
    refine List.filter_eq_self.2 fun d hd => ?_
    rw [(isSchemeChar_ne (List.all_eq_true.1 h.2 d hd)).2]
    rfl
  rw [hdrop, List.filter_append, hkept]

section
variable (checks : NetlocChecks)

theorem urlsplit_scheme {scheme : List Char} (h : IsScheme scheme) (body : List Char) :
    urlsplit checks (scheme ++ ':' :: '/' :: '/' :: body) =
      splitParts checks (scheme.map Char.toLower)
        ((body.filter (!isUnsafe ·)).takeWhile (!endsNetloc ·))
        ((body.filter (!isUnsafe ·)).dropWhile (!endsNetloc ·)) := by
  have hbody : (':' :: '/' :: '/' :: body).filter (!isUnsafe ·) =
      ':' :: '/' :: '/' :: body.filter (!isUnsafe ·) := rfl
  unfold urlsplit
  simp only [h.cleaned, hbody, splitScheme_append h]
  rfl

end

/-! ### What `urlunsplit` puts together -/

/-- An empty second part is left out with its separator. -/
def joinOnce (sep : Char) (before after : List Char) : List Char :=
  if after = [] then before else before ++ sep :: after

theorem takeWhile_append_splitOnce (sep : Char) (s : List Char) :
    s = (splitOnce sep s).1 ++ s.dropWhile (· ≠ sep) := List.takeWhile_append_dropWhile.symm

theorem splitOnce_of_mem {sep : Char} {s : List Char} (h : sep ∈ s) :
    s = (splitOnce sep s).1 ++ sep :: (splitOnce sep s).2 := by
  obtain ⟨before, after, rfl, hbefore⟩ := List.eq_append_cons_of_mem h
  rw [splitOnce_append hbefore]

theorem joinOnce_splitOnce_iff {sep : Char} {s : List Char} :
    joinOnce sep (splitOnce sep s).1 (splitOnce sep s).2 = s ↔
      (sep ∈ s → (splitOnce sep s).2 ≠ []) := by
  by_cases hmem : sep ∈ s
  · have hsplit := splitOnce_of_mem hmem
    unfold joinOnce
    split_ifs with hempty
    · refine iff_of_false (fun h => ?_) fun h => h hmem hempty
      rw [h] at hsplit
      simpa using congrArg List.length hsplit
    · exact iff_of_true hsplit.symm fun _ => hempty
  · rw [splitOnce_of_not_mem hmem]
    exact iff_of_true rfl fun h => absurd h hmem

theorem length_joinOnce (sep : Char) (before after : List Char) :
    (joinOnce sep before after).length =
      before.length + if after = [] then 0 else after.length + 1 := by
  unfold joinOnce
  split_ifs
  · rfl
  · rw [List.length_append, List.length_cons]

/-- What is not put together as it was is shorter. -/
theorem length_joinOnce_splitOnce_lt {sep : Char} {s : List Char}
    (h : joinOnce sep (splitOnce sep s).1 (splitOnce sep s).2 ≠ s) :
    (joinOnce sep (splitOnce sep s).1 (splitOnce sep s).2).length < s.length := by
  have hnot := mt joinOnce_splitOnce_iff.2 h
  rw [Classical.not_imp, not_not] at hnot
  have hlength := congrArg List.length (splitOnce_of_mem hnot.1)
  rw [List.length_append, List.length_cons] at hlength
  rw [length_joinOnce, if_pos hnot.2]
  omega

theorem length_joinOnce_splitOnce_le (sep : Char) (s : List Char) :
    (joinOnce sep (splitOnce sep s).1 (splitOnce sep s).2).length ≤ s.length := by
  by_cases h : joinOnce sep (splitOnce sep s).1 (splitOnce sep s).2 = s
  · rw [h]
  · exact (length_joinOnce_splitOnce_lt h).le

/-- What is put together again of the text after the network location. -/
def restored (rest : List Char) : List Char :=
  let (url, fragment) := splitOnce '#' rest
  let (path, query) := splitOnce '?' url
  joinOnce '#' (joinOnce '?' path query) fragment

/-- The text has no empty query and no empty fragment. -/
def NoEmptyPart (rest : List Char) : Prop :=
  ('#' ∈ rest → (splitOnce '#' rest).2 ≠ []) ∧
    ('?' ∈ (splitOnce '#' rest).1 → (splitOnce '?' (splitOnce '#' rest).1).2 ≠ [])

theorem restored_eq_iff {rest : List Char} : restored rest = rest ↔ NoEmptyPart rest := by
  constructor
  · intro h
    have hquery : joinOnce '?' (splitOnce '?' (splitOnce '#' rest).1).1
        (splitOnce '?' (splitOnce '#' rest).1).2 = (splitOnce '#' rest).1 := by
      by_contra hne
      have hlt := length_joinOnce_splitOnce_lt hne
      have hle := length_joinOnce_splitOnce_le '#' rest
      have hlength := congrArg List.length h
      unfold restored at hlength
      dsimp only at hlength
      rw [length_joinOnce] at hle hlength
      omega
    have hrest := h
    unfold restored at hrest
    dsimp only at hrest
    rw [hquery] at hrest
    exact ⟨joinOnce_splitOnce_iff.1 hrest, joinOnce_splitOnce_iff.1 hquery⟩
  · rintro ⟨hfragment, hquery⟩
    unfold restored
    dsimp only
    rw [joinOnce_splitOnce_iff.2 hquery, joinOnce_splitOnce_iff.2 hfragment]

theorem joinOnce_sublist {sep : Char} {before before' : List Char} (after : List Char)
    (h : before.Sublist before') :
    (joinOnce sep before after).Sublist (joinOnce sep before' after) := by
  unfold joinOnce
  split_ifs
  · exact h
  · exact h.append_right _

theorem joinOnce_splitOnce_sublist (sep : Char) (s : List Char) :
    (joinOnce sep (splitOnce sep s).1 (splitOnce sep s).2).Sublist s := by
  by_cases h : joinOnce sep (splitOnce sep s).1 (splitOnce sep s).2 = s
  · rw [h]
  · have hempty := mt joinOnce_splitOnce_iff.2 h
    rw [Classical.not_imp, not_not] at hempty
    rw [joinOnce, if_pos hempty.2]
    exact (List.takeWhile_prefix _).sublist

theorem restored_sublist (rest : List Char) : (restored rest).Sublist rest :=
  (joinOnce_sublist _ (joinOnce_splitOnce_sublist _ _)).trans (joinOnce_splitOnce_sublist _ _)

/-- The slashes before the network location. -/
def slashes (scheme netloc rest : List Char) : List Char :=
  if netloc ≠ [] ∨ ['/', '/'].isPrefixOf rest ∨ usesNetloc.contains (String.ofList scheme) then
    ['/', '/']
  else []

/-- The text after a network location begins a path, a query or a fragment. -/
def BeginsRest (rest : List Char) : Prop := ∀ c ∈ rest.head?, endsNetloc c

theorem beginsRest_dropWhile (s : List Char) : BeginsRest (s.dropWhile (!endsNetloc ·)) := by
  intro c hc
  have hne : s.dropWhile (!endsNetloc ·) ≠ [] := by
    intro hnil
    rw [hnil] at hc
    cases hc
  rw [List.head?_eq_some_head hne] at hc
  have hnot := List.head_dropWhile_not (fun c => !endsNetloc c) hne
  rw [Option.some.inj hc, Bool.not_eq_false'] at hnot
  exact hnot

theorem joinOnce_append (sep : Char) (front before after : List Char) :
    joinOnce sep (front ++ before) after = front ++ joinOnce sep before after := by
  unfold joinOnce
  split_ifs
  · rfl
  · rw [List.append_assoc]

theorem splitOnce_cons_of_ne {sep c : Char} (h : c ≠ sep) (s : List Char) :
    (splitOnce sep (c :: s)).1 = c :: (splitOnce sep s).1 :=
  List.takeWhile_cons_of_pos (p := fun x => decide (x ≠ sep)) (decide_eq_true h)

/-- The path of a text that begins a path, a query or a fragment. -/
theorem path_of_beginsRest {rest : List Char} (hrest : BeginsRest rest) :
    ((splitOnce '?' (splitOnce '#' rest).1).1 = [] ∧ ['/', '/'].isPrefixOf rest = false) ∨
      ∃ tail, rest = '/' :: tail ∧ (splitOnce '?' (splitOnce '#' rest).1).1 =
        '/' :: (splitOnce '?' (splitOnce '#' tail).1).1 := by
  cases rest with
  | nil => exact .inl ⟨rfl, rfl⟩
  | cons c tail =>
    have hc : endsNetloc c = true := hrest c rfl
    simp only [endsNetloc, Bool.or_eq_true, decide_eq_true_eq] at hc
    rcases hc with (rfl | rfl) | rfl
    · refine .inr ⟨tail, rfl, ?_⟩
      rw [splitOnce_cons_of_ne (by decide), splitOnce_cons_of_ne (by decide)]
    · refine .inl ⟨?_, rfl⟩
      rw [splitOnce_cons_of_ne (by decide)]
      rfl
    · exact .inl ⟨rfl, rfl⟩

theorem isPrefixOf_path (rest : List Char) :
    ['/'].isPrefixOf (splitOnce '?' (splitOnce '#' rest).1).1 = ['/'].isPrefixOf rest := by
  cases rest with
  | nil => rfl
  | cons c tail =>
    by_cases hfragment : c = '#'
    · rw [hfragment]
      rfl
    · rw [splitOnce_cons_of_ne hfragment]
      by_cases hquery : c = '?'
      · rw [hquery]
        rfl
      · rw [splitOnce_cons_of_ne hquery]
        rfl

theorem urlunsplit_splitParts {scheme netloc rest : List Char} (hscheme : scheme ≠ [])
    (hrest : BeginsRest rest) :
    urlunsplit
        { scheme, netloc
          path := (splitOnce '?' (splitOnce '#' rest).1).1
          query := (splitOnce '?' (splitOnce '#' rest).1).2
          fragment := (splitOnce '#' rest).2 } =
      scheme ++ ':' :: (slashes scheme netloc rest ++ netloc ++ restored rest) := by
  have hjoined (sep : Char) (before after : List Char) :
      (if after ≠ [] then before ++ sep :: after else before) = joinOnce sep before after := by
    by_cases hempty : after = []
    · rw [joinOnce, if_pos hempty, if_neg (not_not.2 hempty)]
    · rw [joinOnce, if_neg hempty, if_pos hempty]
  have hslashes : (if netloc ≠ [] then
        '/' :: '/' :: netloc ++
          if (splitOnce '?' (splitOnce '#' rest).1).1 ≠ [] ∧
              (splitOnce '?' (splitOnce '#' rest).1).1.head? ≠ some '/' then
            '/' :: (splitOnce '?' (splitOnce '#' rest).1).1
          else (splitOnce '?' (splitOnce '#' rest).1).1
      else if ['/', '/'].isPrefixOf (splitOnce '?' (splitOnce '#' rest).1).1 then
        '/' :: '/' :: (splitOnce '?' (splitOnce '#' rest).1).1
      else if scheme ≠ [] ∧ usesNetloc.contains (String.ofList scheme) ∧
          ((splitOnce '?' (splitOnce '#' rest).1).1 = [] ∨
            (splitOnce '?' (splitOnce '#' rest).1).1.head? = some '/') then
        '/' :: '/' :: (splitOnce '?' (splitOnce '#' rest).1).1
      else (splitOnce '?' (splitOnce '#' rest).1).1) =
      slashes scheme netloc rest ++ netloc ++ (splitOnce '?' (splitOnce '#' rest).1).1 := by
    unfold slashes
    rcases path_of_beginsRest hrest with ⟨hpath, hslash⟩ | ⟨tail, rfl, hpath⟩
    · rw [hpath, hslash]
      by_cases hnetloc : netloc = []
      · simp [hnetloc, hscheme]
      · simp [hnetloc]
    · have htail := isPrefixOf_path tail
      rw [hpath]
      by_cases hnetloc : netloc = []
      · have hsecond : ['/', '/'].isPrefixOf ('/' :: (splitOnce '?' (splitOnce '#' tail).1).1) =
            ['/', '/'].isPrefixOf ('/' :: tail) := htail
        rw [hsecond]
        by_cases hslash : ['/', '/'].isPrefixOf ('/' :: tail) = true
        · simp [hnetloc, hslash]
        · by_cases huses : String.ofList scheme ∈ usesNetloc
          · simp [hnetloc, hscheme, hslash, huses]
          · simp [hnetloc, hslash, huses]
      · simp [hnetloc]
  unfold urlunsplit
  dsimp only
  rw [hslashes, if_pos hscheme, hjoined, hjoined]
  unfold restored
  dsimp only
  have hfront : scheme ++ ':' :: (slashes scheme netloc rest ++ netloc ++
      (splitOnce '?' (splitOnce '#' rest).1).1) =
      (scheme ++ ':' :: (slashes scheme netloc rest ++ netloc)) ++
        (splitOnce '?' (splitOnce '#' rest).1).1 := by
    simp
  rw [hfront, joinOnce_append, joinOnce_append]
  simp

end AltrStream.Python
