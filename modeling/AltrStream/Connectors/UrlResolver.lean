import AltrStream.Python.Urllib

/-! # The hosts of connection URLs

`resolve_connection_url` replaces a loopback host by the one under which Docker reaches the host
machine.
-/
namespace AltrStream.Connectors
open Foundations Python

def dockerHostInternal : List Char := "host.docker.internal".toList

def loopbackHosts : List (List Char) :=
  ["localhost".toList, "127.0.0.1".toList, "::1".toList, "[::1]".toList]

section
variable (py : Casing)

/-- `s.lower()` -/
def lowered (s : List Char) : List Char := (py.lower (String.ofList s)).toList

def isLoopback (h : List Char) : Bool := loopbackHosts.contains (lowered py h)

/-- `[::1]`, possibly with a port. -/
def isBracketedLoopback (h : List Char) : Bool :=
  (lowered py h).head? = some '[' && (lowered py h).contains ']' &&
    loopbackHosts.contains ((splitOnce ']' (lowered py h)).1.drop 1)

/-- `localhost:27017` -/
def isLoopbackWithPort (h : List Char) : Bool :=
  h.contains ':' && h.head? ≠ some '[' && isLoopback py (splitOnce ':' h).1

/-- `resolve_docker_host`; `None` is returned as it is. -/
def resolveDockerHost (host : List Char) : List Char :=
  if host = [] then host
  else
    let h := stripChars host
    if isBracketedLoopback py h then
      dockerHostInternal ++ h.drop ((splitOnce ']' (lowered py h)).1.length + 1)
    else if isLoopback py h then dockerHostInternal
    else if isLoopbackWithPort py h then dockerHostInternal ++ ':' :: (splitOnce ':' h).2
    else h

/-- A host, or a host and what follows the first `:`. -/
def resolveHostAndPort (text : List Char) : List Char :=
  if ':' ∈ text then
    resolveDockerHost py (splitOnce ':' text).1 ++ ':' :: (splitOnce ':' text).2
  else resolveDockerHost py text

def resolveHostport (hostport : List Char) : List Char :=
  if hostport.head? = some '[' then
    if ']' ∈ hostport then
      let ipv6Host := (splitOnce ']' hostport).1.drop 1
      let portSuffix := (splitOnce ']' hostport).2
      let resolved := resolveDockerHost py ipv6Host
      if resolved ≠ ipv6Host then resolved ++ portSuffix
      else '[' :: ipv6Host ++ ']' :: portSuffix
    else hostport
  else resolveHostAndPort py hostport

/-- The credentials end at the last `@`. -/
def resolveNetloc (netloc : List Char) : List Char :=
  netloc.rdropWhile (· ≠ '@') ++ resolveHostport py (netloc.rtakeWhile (· ≠ '@'))

def hasScheme (url : List Char) : Bool := [':', '/', '/'] <:+: url

def resolveConnectionUrl (checks : NetlocChecks) (url : List Char) : Except String (List Char) :=
  if url = [] then .ok url
  else if !hasScheme url then .ok (resolveHostAndPort py url)
  else
    match urlsplit checks url with
    | .error message => .error message
    | .ok parsed => .ok (urlunsplit { parsed with netloc := resolveNetloc py parsed.netloc })

end

/-! ### Hosts that are replaced -/

/-- What the method `lower` of every edition of Unicode does on single characters: the first one is
mapped by itself, and outside of ASCII only the Kelvin sign has a lower case in it. -/
structure Charwise (py : Casing) : Prop where
  lower_cons : ∀ c s, lowered py [c] <+: lowered py (c :: s)
  ascii_of_lower : ∀ s, (∀ c ∈ lowered py s, c.toNat < 128 ∧ c ≠ 'k') → ∀ c ∈ s, c.toNat < 128

section
variable {py : Casing}

theorem lower_of_ascii {s : List Char} (h : ∀ c ∈ s, c.toNat < 128) :
    lowered py s = s.map Char.toLower := by
  rw [lowered, py.lower_of_ascii _ (by rwa [String.toList_ofList]), String.toList_ofList,
    String.toList_ofList]

theorem lower_nil : lowered py [] = [] := lower_of_ascii (by simp)

variable (py) in
/-- `resolve_docker_host` replaces a host, possibly in brackets or with a port. -/
def namesLoopback (h : List Char) : Bool :=
  isBracketedLoopback py h || isLoopback py h || isLoopbackWithPort py h

theorem loopbackHosts_head {d : Char} {t : List Char} (h : loopbackHosts.contains (d :: t)) :
    d ∈ ['l', '1', ':', '['] := by
  rw [List.contains_iff_mem] at h
  simp only [loopbackHosts, List.mem_cons, List.not_mem_nil, or_false] at h
  rcases h with h | h | h | h
  · rw [(List.cons_eq_cons.1 (h.trans (by rfl : "localhost".toList = 'l' :: "ocalhost".toList))).1]
    decide
  · rw [(List.cons_eq_cons.1 (h.trans (by rfl : "127.0.0.1".toList = '1' :: "27.0.0.1".toList))).1]
    decide
  · rw [(List.cons_eq_cons.1 (h.trans (by rfl : "::1".toList = ':' :: ":1".toList))).1]
    decide
  · rw [(List.cons_eq_cons.1 (h.trans (by rfl : "[::1]".toList = '[' :: "::1]".toList))).1]
    decide

/-- Only some characters begin a host that is replaced. -/
def BeginsOther (c : Char) : Prop := c.toNat < 128 ∧ c.toLower ∉ ['l', '1', ':', '[']

theorem lower_cons_of_begins (hpy : Charwise py) {c : Char} (hc : BeginsOther c) (s : List Char) :
    ∃ t, lowered py (c :: s) = c.toLower :: t := by
  obtain ⟨t, ht⟩ := hpy.lower_cons c s
  rw [lower_of_ascii (by simpa using hc.1)] at ht
  exact ⟨t, ht.symm⟩

theorem isLoopback_cons_of_begins (hpy : Charwise py) {c : Char} (hc : BeginsOther c)
    (s : List Char) : isLoopback py (c :: s) = false := by
  obtain ⟨t, ht⟩ := lower_cons_of_begins hpy hc s
  rw [isLoopback, ht, Bool.eq_false_iff]
  exact fun h => hc.2 (loopbackHosts_head h)

theorem namesLoopback_cons_of_begins (hpy : Charwise py) {c : Char} (hc : BeginsOther c)
    (s : List Char) : namesLoopback py (c :: s) = false := by
  have hcolon : c ≠ ':' := by
    rintro rfl
    exact hc.2 (by decide)
  have hbracket : c.toLower ≠ '[' := fun h => hc.2 (by rw [h]; decide)
  obtain ⟨t, ht⟩ := lower_cons_of_begins hpy hc s
  have hfirst : isBracketedLoopback py (c :: s) = false := by
    rw [isBracketedLoopback, ht]
    simp [hbracket]
  have hport : isLoopbackWithPort py (c :: s) = false := by
    rw [isLoopbackWithPort, splitOnce_cons_of_ne hcolon, isLoopback_cons_of_begins hpy hc,
      Bool.and_false]
  rw [namesLoopback, hfirst, isLoopback_cons_of_begins hpy hc, hport]
  rfl

theorem namesLoopback_nil : namesLoopback py [] = false := by
  rw [namesLoopback, isBracketedLoopback, isLoopback, isLoopbackWithPort, lower_nil]
  rfl

/-- A host that is not replaced loses its surrounding whitespace. -/
theorem resolveDockerHost_of_not {host : List Char}
    (h : namesLoopback py (stripChars host) = false) :
    resolveDockerHost py host = stripChars host := by
  simp only [namesLoopback, Bool.or_eq_false_iff] at h
  obtain ⟨⟨hbracketed, hloopback⟩, hport⟩ := h
  unfold resolveDockerHost
  split_ifs with hempty
  · rw [hempty]
    rfl
  · simp only [hbracketed, hloopback, hport, Bool.false_eq_true, if_false]

theorem mem_stripChars {c : Char} {s : List Char} (h : c ∈ stripChars s) : c ∈ s :=
  (List.dropWhile_sublist _).mem ((List.rdropWhile_prefix _ _).sublist.mem h)

theorem length_stripChars_le (s : List Char) : (stripChars s).length ≤ s.length :=
  ((List.rdropWhile_prefix _ _).sublist.trans (List.dropWhile_sublist _)).length_le

/-- A host that is replaced begins as the host of the machine does. -/
theorem resolveDockerHost_of {host : List Char} (h : namesLoopback py (stripChars host) = true) :
    ∃ tail, resolveDockerHost py host = dockerHostInternal ++ tail ∧ ∀ c ∈ tail, c ∈ host := by
  have hne : host ≠ [] := by
    rintro rfl
    rw [show stripChars [] = [] from rfl, namesLoopback_nil] at h
    cases h
  unfold resolveDockerHost
  rw [if_neg hne]
  dsimp only
  split_ifs with hbracketed hloopback hport
  · exact ⟨_, rfl, fun c hc => mem_stripChars (List.mem_of_mem_drop hc)⟩
  · exact ⟨[], (List.append_nil _).symm, fun c hc => absurd hc List.not_mem_nil⟩
  · refine ⟨_, rfl, fun c hc => mem_stripChars ?_⟩
    have hmem : ':' ∈ stripChars host := by
      simp only [isLoopbackWithPort, Bool.and_eq_true] at hport
      exact List.contains_iff_mem.1 hport.1.1
    rw [splitOnce_of_mem hmem]
    exact List.mem_append_right _ hc
  · rw [namesLoopback] at h
    simp only [Bool.not_eq_true] at hbracketed hloopback hport
    rw [hbracketed, hloopback, hport] at h
    cases h

/-- A visible first character stays. -/
theorem stripChars_cons {c : Char} (hc : isspace c = false) (s : List Char) :
    ∃ t, stripChars (c :: s) = c :: t := by
  obtain ⟨before, after, hs, hbefore, hafter⟩ := stripChars_append (c :: s)
  cases before with
  | cons d before =>
    rw [List.cons_append, List.cons_append] at hs
    obtain ⟨rfl, -⟩ := List.cons_eq_cons.1 hs
    rw [hbefore c List.mem_cons_self] at hc
    cases hc
  | nil =>
    cases hstrip : stripChars (c :: s) with
    | nil =>
      rw [hstrip] at hs
      have hmem : c ∈ after := by
        rw [List.nil_append, List.nil_append] at hs
        exact hs ▸ List.mem_cons_self
      rw [hafter c hmem] at hc
      cases hc
    | cons d t =>
      rw [hstrip, List.nil_append, List.cons_append] at hs
      exact ⟨t, by rw [(List.cons_eq_cons.1 hs).1]⟩

theorem namesLoopback_stripChars_cons (hpy : Charwise py) {c : Char} (hc : BeginsOther c)
    (hspace : isspace c = false) (s : List Char) :
    namesLoopback py (stripChars (c :: s)) = false := by
  obtain ⟨t, ht⟩ := stripChars_cons hspace s
  rw [ht]
  exact namesLoopback_cons_of_begins hpy hc t

theorem dockerHostInternal_eq : dockerHostInternal = 'h' :: "ost.docker.internal".toList := rfl

theorem beginsOther_h : BeginsOther 'h' := ⟨by decide, by decide⟩

variable (py) in
/-- The host is left as it is. -/
structure HostKept (h : List Char) : Prop where
  stripped : stripChars h = h
  notLoopback : namesLoopback py h = false

theorem HostKept.resolveDockerHost {h : List Char} (hkept : HostKept py h) :
    resolveDockerHost py h = h := by
  rw [resolveDockerHost_of_not (by rw [hkept.stripped]; exact hkept.notLoopback), hkept.stripped]

/-- What is replaced does not come out as it was. -/
theorem resolveDockerHost_ne (hpy : Charwise py) {h : List Char}
    (hnames : namesLoopback py (stripChars h) = true) (tail : List Char) :
    h ≠ dockerHostInternal ++ tail := by
  rintro rfl
  rw [dockerHostInternal_eq, List.cons_append,
    namesLoopback_stripChars_cons hpy beginsOther_h (by decide)] at hnames
  cases hnames

theorem resolveHostAndPort_eq (text : List Char) : resolveHostAndPort py text =
    resolveDockerHost py (splitOnce ':' text).1 ++ text.dropWhile (· ≠ ':') := by
  unfold resolveHostAndPort
  split_ifs with hmem
  · obtain ⟨before, after, rfl, hbefore⟩ := List.eq_append_cons_of_mem hmem
    have hkeep : ∀ c ∈ before, decide (c ≠ ':') = true := fun c hc =>
      decide_eq_true (ne_of_mem_of_not_mem hc hbefore)
    rw [splitOnce_append hbefore, List.dropWhile_append_of_pos hkeep]
    rfl
  · have hkeep : ∀ c ∈ text, decide (c ≠ ':') = true := fun c hc =>
      decide_eq_true (ne_of_mem_of_not_mem hc hmem)
    rw [splitOnce_of_not_mem hmem, List.dropWhile_eq_nil_iff.2 hkeep, List.append_nil]

/-- The host that is read of a host with a port. -/
def readHost (hostport : List Char) : List Char :=
  if hostport.head? = some '[' then
    if ']' ∈ hostport then (splitOnce ']' hostport).1.drop 1 else []
  else (splitOnce ':' hostport).1

theorem bracketed_eq {hostport : List Char} (hhead : hostport.head? = some '[')
    (hmem : ']' ∈ hostport) : hostport =
      '[' :: (splitOnce ']' hostport).1.drop 1 ++ ']' :: (splitOnce ']' hostport).2 := by
  obtain ⟨c, tail, rfl⟩ := List.exists_cons_of_ne_nil (List.ne_nil_of_mem hmem)
  obtain rfl : c = '[' := Option.some.inj hhead
  have hsplit := splitOnce_of_mem hmem
  rw [splitOnce_cons_of_ne (by decide)] at hsplit ⊢
  exact hsplit

theorem HostKept.resolveHostport {hostport : List Char} (hkept : HostKept py (readHost hostport)) :
    resolveHostport py hostport = hostport := by
  unfold readHost at hkept
  unfold AltrStream.Connectors.resolveHostport
  split_ifs at hkept ⊢ with hhead hmem
  · dsimp only
    rw [hkept.resolveDockerHost, if_neg (not_not.2 rfl)]
    exact (bracketed_eq hhead hmem).symm
  · rfl
  · rw [resolveHostAndPort_eq, hkept.resolveDockerHost]
    exact (takeWhile_append_splitOnce ':' hostport).symm

/-- A host that is not replaced makes the text no longer, and shorter if it is changed. -/
theorem resolveHostport_of_not {hostport : List Char}
    (h : namesLoopback py (stripChars (readHost hostport)) = false) :
    (resolveHostport py hostport).length ≤ hostport.length ∧
      ((resolveHostport py hostport).length = hostport.length →
        stripChars (readHost hostport) = readHost hostport) := by
  have hstripped {host : List Char} (hlength : (stripChars host).length = host.length) :
      stripChars host = host :=
    ((List.rdropWhile_prefix _ _).sublist.trans (List.dropWhile_sublist _)).eq_of_length hlength
  unfold readHost at h ⊢
  unfold resolveHostport
  split_ifs at h ⊢ with hhead hmem
  · have hlength := congrArg List.length (bracketed_eq hhead hmem)
    have hle := length_stripChars_le ((splitOnce ']' hostport).1.drop 1)
    dsimp only
    rw [resolveDockerHost_of_not h]
    simp only [List.cons_append, List.length_append, List.length_cons] at hlength
    split_ifs with hsame
    · rw [List.length_append]
      exact ⟨by omega, fun heq => absurd heq (by omega)⟩
    · simp only [List.cons_append, List.length_append, List.length_cons]
      exact ⟨by omega, fun _ => not_not.1 hsame⟩
  · exact ⟨le_rfl, fun _ => rfl⟩
  · have hlength := congrArg List.length (takeWhile_append_splitOnce ':' hostport)
    have hle := length_stripChars_le (splitOnce ':' hostport).1
    rw [List.length_append] at hlength
    rw [resolveHostAndPort_eq, resolveDockerHost_of_not h, List.length_append]
    exact ⟨by omega, fun heq => hstripped (by omega)⟩

/-- A host that is replaced begins the text. -/
theorem resolveHostport_of (hpy : Charwise py) {hostport : List Char}
    (h : namesLoopback py (stripChars (readHost hostport)) = true) :
    ∃ tail, resolveHostport py hostport = dockerHostInternal ++ tail ∧ ∀ c ∈ tail, c ∈ hostport := by
  obtain ⟨tail, htail, hmem⟩ := resolveDockerHost_of h
  have hne := resolveDockerHost_ne hpy h tail
  unfold readHost at htail hmem hne h
  unfold resolveHostport
  split_ifs at htail hmem hne h ⊢ with hhead hbracket
  · dsimp only
    rw [htail, if_pos hne.symm, List.append_assoc]
    refine ⟨_, rfl, fun c hc => ?_⟩
    rw [bracketed_eq hhead hbracket, List.cons_append]
    rcases List.mem_append.1 hc with hc | hc
    · exact List.mem_cons_of_mem _ (List.mem_append_left _ (hmem c hc))
    · exact List.mem_cons_of_mem _ (List.mem_append_right _ (List.mem_cons_of_mem _ hc))
  · rw [show stripChars [] = [] from rfl, namesLoopback_nil] at h
    cases h
  · rw [resolveHostAndPort_eq, htail, List.append_assoc]
    refine ⟨_, rfl, fun c hc => ?_⟩
    rw [takeWhile_append_splitOnce ':' hostport]
    rcases List.mem_append.1 hc with hc | hc
    · exact List.mem_append_left _ (hmem c hc)
    · exact List.mem_append_right _ hc

/-! ### URLs that are left alone -/

/-- The network location of what follows `://`, and the rest. -/
def authority (body : List Char) : List Char := body.takeWhile (!endsNetloc ·)

def afterAuthority (body : List Char) : List Char := body.dropWhile (!endsNetloc ·)

theorem authority_append (body : List Char) : body = authority body ++ afterAuthority body :=
  List.takeWhile_append_dropWhile.symm

/-- The host and port of a network location, after the last `@`. -/
def hostportOf (netloc : List Char) : List Char := netloc.rtakeWhile (· ≠ '@')

/-- The URL comes out of `urlsplit` and `urlunsplit` as it was, and its host is kept. -/
structure LeftAlone (py : Casing) (checks : NetlocChecks) (scheme body : List Char) : Prop where
  lowerCase : scheme.map Char.toLower = scheme
  clean : ∀ c ∈ body, isUnsafe c = false
  accepted : refusal checks (authority body) = none
  hasSlashes : slashes scheme (authority body) (afterAuthority body) = ['/', '/']
  host : HostKept py (readHost (hostportOf (authority body)))
  rest : NoEmptyPart (afterAuthority body)

theorem hasScheme_append (scheme body : List Char) :
    hasScheme (scheme ++ ':' :: '/' :: '/' :: body) = true :=
  decide_eq_true ⟨scheme, body, by simp⟩

variable {checks : NetlocChecks}

/-- The URL that is returned, unless the network location is refused. -/
theorem resolveConnectionUrl_scheme {scheme : List Char} (h : IsScheme scheme) (body : List Char)
    (haccepted : refusal checks (authority (body.filter (!isUnsafe ·))) = none) :
    resolveConnectionUrl py checks (scheme ++ ':' :: '/' :: '/' :: body) =
      .ok (scheme.map Char.toLower ++ ':' ::
        (slashes (scheme.map Char.toLower)
          (resolveNetloc py (authority (body.filter (!isUnsafe ·))))
          (afterAuthority (body.filter (!isUnsafe ·))) ++
        resolveNetloc py (authority (body.filter (!isUnsafe ·))) ++
        restored (afterAuthority (body.filter (!isUnsafe ·))))) := by
  have hne : scheme ++ ':' :: '/' :: '/' :: body ≠ [] := by simp
  have hlower : scheme.map Char.toLower ≠ [] := by simpa using h.ne_nil
  have hsplit := urlsplit_scheme checks h body
  unfold splitParts at hsplit
  rw [show refusal checks ((body.filter (!isUnsafe ·)).takeWhile (!endsNetloc ·)) = none from
    haccepted] at hsplit
  unfold resolveConnectionUrl
  rw [if_neg hne, hasScheme_append, hsplit]
  exact congrArg Except.ok (urlunsplit_splitParts hlower (beginsRest_dropWhile _))

theorem resolveConnectionUrl_refused {scheme : List Char} (h : IsScheme scheme) (body : List Char)
    {message : String}
    (hrefused : refusal checks (authority (body.filter (!isUnsafe ·))) = some message) :
    resolveConnectionUrl py checks (scheme ++ ':' :: '/' :: '/' :: body) = .error message := by
  have hne : scheme ++ ':' :: '/' :: '/' :: body ≠ [] := by simp
  have hsplit := urlsplit_scheme checks h body
  unfold splitParts at hsplit
  rw [show refusal checks ((body.filter (!isUnsafe ·)).takeWhile (!endsNetloc ·)) = some message
    from hrefused] at hsplit
  unfold resolveConnectionUrl
  rw [if_neg hne, hasScheme_append, hsplit]
  rfl

theorem resolveNetloc_eq (netloc : List Char) : resolveNetloc py netloc =
    netloc.rdropWhile (· ≠ '@') ++ resolveHostport py (hostportOf netloc) := rfl

theorem netloc_eq (netloc : List Char) :
    netloc = netloc.rdropWhile (· ≠ '@') ++ hostportOf netloc :=
  (List.rdropWhile_append_rtakeWhile).symm

theorem filter_clean {body : List Char} (h : ∀ c ∈ body, isUnsafe c = false) :
    body.filter (!isUnsafe ·) = body := List.filter_eq_self.2 fun c hc => by rw [h c hc]; rfl

theorem LeftAlone.resolve {scheme body : List Char} (hscheme : IsScheme scheme)
    (h : LeftAlone py checks scheme body) :
    resolveConnectionUrl py checks (scheme ++ ':' :: '/' :: '/' :: body) =
      .ok (scheme ++ ':' :: '/' :: '/' :: body) := by
  have hnetloc : resolveNetloc py (authority body) = authority body := by
    rw [resolveNetloc_eq, h.host.resolveHostport]
    exact (netloc_eq _).symm
  rw [resolveConnectionUrl_scheme hscheme body (by rw [filter_clean h.clean]; exact h.accepted),
    filter_clean h.clean, h.lowerCase, hnetloc, h.hasSlashes, restored_eq_iff.2 h.rest, List.append_assoc,
    ← authority_append]
  rfl

/-- The parts of a URL that is returned with its scheme. -/
theorem resolveConnectionUrl_eq_ok {scheme : List Char} (h : IsScheme scheme)
    {body body' : List Char}
    (hresult : resolveConnectionUrl py checks (scheme ++ ':' :: '/' :: '/' :: body) =
      .ok (scheme ++ ':' :: '/' :: '/' :: body')) :
    refusal checks (authority (body.filter (!isUnsafe ·))) = none ∧
      scheme.map Char.toLower = scheme ∧
      slashes scheme (resolveNetloc py (authority (body.filter (!isUnsafe ·))))
          (afterAuthority (body.filter (!isUnsafe ·))) ++
        resolveNetloc py (authority (body.filter (!isUnsafe ·))) ++
        restored (afterAuthority (body.filter (!isUnsafe ·))) = '/' :: '/' :: body' := by
  cases hrefusal : refusal checks (authority (body.filter (!isUnsafe ·))) with
  | some message =>
    rw [resolveConnectionUrl_refused h body hrefusal] at hresult
    cases hresult
  | none =>
    rw [resolveConnectionUrl_scheme h body hrefusal] at hresult
    obtain ⟨hlower, hrest⟩ := List.append_inj (Except.ok.inj hresult) (List.length_map ..)
    rw [hlower] at hrest
    exact ⟨rfl, hlower, (List.cons_eq_cons.1 hrest).2⟩

theorem mem_slashes {scheme netloc rest : List Char} {c : Char}
    (h : c ∈ slashes scheme netloc rest) : c = '/' := by
  unfold slashes at h
  split_ifs at h
  · simpa using h
  · exact absurd h List.not_mem_nil

theorem length_slashes_le (scheme netloc rest : List Char) :
    (slashes scheme netloc rest).length ≤ 2 := by
  unfold slashes
  split_ifs
  · exact le_rfl
  · exact Nat.zero_le _

theorem slashes_eq_of_length {scheme netloc rest : List Char}
    (h : (slashes scheme netloc rest).length = 2) : slashes scheme netloc rest = ['/', '/'] := by
  unfold slashes at h ⊢
  split_ifs at h ⊢
  rfl

theorem beforeColon_cons (hpy : Charwise py) {c : Char} (hc : BeginsOther c)
    (hspace : isspace c = false) (s : List Char) :
    namesLoopback py (stripChars (splitOnce ':' (c :: s)).1) = false := by
  have hcolon : c ≠ ':' := by
    rintro rfl
    exact hc.2 (by decide)
  rw [splitOnce_cons_of_ne hcolon]
  exact namesLoopback_stripChars_cons hpy hc hspace _

theorem readHost_cons (hpy : Charwise py) {c : Char} (hc : BeginsOther c)
    (hspace : isspace c = false) (s : List Char) :
    namesLoopback py (stripChars (readHost (c :: s))) = false := by
  have hbracket : ¬ (c :: s).head? = some '[' := by
    intro h
    obtain rfl := Option.some.inj h
    exact hc.2 (by decide)
  rw [readHost, if_neg hbracket]
  exact beforeColon_cons hpy hc hspace s

theorem readHost_nil : namesLoopback py (stripChars (readHost [])) = false := namesLoopback_nil

/-- A text whose host is replaced does not begin as the replacement does. -/
theorem not_docker_append (hpy : Charwise py) {hostport : List Char}
    (h : namesLoopback py (stripChars (readHost hostport)) = true) (tail rest : List Char)
    (heq : hostport ++ rest = dockerHostInternal ++ tail) : False := by
  cases hostport with
  | nil =>
    rw [readHost_nil] at h
    cases h
  | cons c hostport =>
    obtain ⟨rfl, -⟩ := List.cons_eq_cons.1 (heq.trans (by rw [dockerHostInternal_eq]; rfl))
    rw [readHost_cons hpy beginsOther_h (by decide)] at h
    cases h

theorem slashes_of_ne_nil {scheme netloc rest : List Char} (h : netloc ≠ []) :
    slashes scheme netloc rest = ['/', '/'] := if_pos (.inl h)

/-- A URL is returned as it is exactly if it is left alone. -/
theorem leftAlone_of_resolve (hpy : Charwise py) {scheme body : List Char}
    (hscheme : IsScheme scheme)
    (h : resolveConnectionUrl py checks (scheme ++ ':' :: '/' :: '/' :: body) =
      .ok (scheme ++ ':' :: '/' :: '/' :: body)) : LeftAlone py checks scheme body := by
  obtain ⟨haccepted, hlower, heq⟩ := resolveConnectionUrl_eq_ok hscheme h
  generalize hkept : body.filter (!isUnsafe ·) = kept at *
  have hsub : kept.Sublist body := hkept ▸ List.filter_sublist
  have hparts := authority_append kept
  have hnetloc := netloc_eq (authority kept)
  have hrestored := (restored_sublist (afterAuthority kept)).length_le
  cases hnames : namesLoopback py (stripChars (readHost (hostportOf (authority kept)))) with
  | false =>
    obtain ⟨hle, hstripped⟩ := resolveHostport_of_not hnames
    have hlength := congrArg List.length heq
    have hslashes := length_slashes_le scheme (resolveNetloc py (authority kept))
      (afterAuthority kept)
    have hlengthParts := congrArg List.length hparts
    have hlengthNetloc := congrArg List.length hnetloc
    have hlengthKept := hsub.length_le
    have hlengthResolved : (resolveNetloc py (authority kept)).length =
        ((authority kept).rdropWhile (· ≠ '@')).length +
          (resolveHostport py (hostportOf (authority kept))).length := by
      rw [resolveNetloc_eq, List.length_append]
    simp only [List.length_append, List.length_cons] at hlength hlengthParts hlengthNetloc
    obtain rfl : kept = body := hsub.eq_of_length (by omega)
    have hslashes := slashes_eq_of_length (show (slashes scheme (resolveNetloc py (authority kept))
      (afterAuthority kept)).length = 2 by omega)
    rw [hslashes] at heq
    have heq : resolveNetloc py (authority kept) ++ restored (afterAuthority kept) = kept :=
      (List.cons_eq_cons.1 (List.cons_eq_cons.1 heq).2).2
    obtain ⟨hsame, hrest⟩ := List.append_inj (heq.trans hparts) (by omega)
    have hhost := hstripped (by omega)
    exact
      { lowerCase := hlower
        clean := fun c hc => by simpa using List.filter_eq_self.1 hkept c hc
        accepted := haccepted
        hasSlashes := hsame ▸ hslashes
        host := ⟨hhost, by rw [← hhost]; exact hnames⟩
        rest := restored_eq_iff.1 hrest }
  | true =>
    obtain ⟨tail, htail, hmem⟩ := resolveHostport_of hpy hnames
    have hresolved := @resolveNetloc_eq py (authority kept)
    rw [htail] at hresolved
    have hne : resolveNetloc py (authority kept) ≠ [] := by
      rw [hresolved, dockerHostInternal_eq]
      simp
    rw [slashes_of_ne_nil hne] at heq
    have heq : resolveNetloc py (authority kept) ++ restored (afterAuthority kept) = body :=
      (List.cons_eq_cons.1 (List.cons_eq_cons.1 heq).2).2
    have hclean : ∀ c ∈ body, isUnsafe c = false := by
      have hcleanKept : ∀ c ∈ kept, isUnsafe c = false := fun c hc => by
        rw [← hkept] at hc
        simpa using (List.mem_filter.1 hc).2
      have hdocker : ∀ c ∈ dockerHostInternal, isUnsafe c = false := by decide
      intro c hc
      rw [← heq, hresolved] at hc
      rcases List.mem_append.1 hc with hc | hc
      · refine Or.elim (List.mem_append.1 hc) (fun hc => ?_) fun hc => ?_
        · refine hcleanKept c ?_
          rw [hparts, hnetloc]
          exact List.mem_append_left _ (List.mem_append_left _ hc)
        · refine Or.elim (List.mem_append.1 hc) (hdocker c) fun hc => hcleanKept c ?_
          rw [hparts, hnetloc]
          exact List.mem_append_left _ (List.mem_append_right _ (hmem c hc))
      · refine hcleanKept c ?_
        rw [hparts]
        exact List.mem_append_right _ ((restored_sublist _).mem hc)
    obtain rfl : body = kept := (filter_clean hclean).symm.trans hkept
    refine (not_docker_append hpy hnames (tail ++ restored (afterAuthority body))
      (afterAuthority body) ?_).elim
    have hbody := heq.trans (hparts.trans (congrArg (· ++ afterAuthority body) hnetloc))
    rw [hresolved] at hbody
    simp only [List.append_assoc, List.append_cancel_left_eq] at hbody
    exact hbody.symm

/-- A text without `://` is returned as it is exactly if what is before its first colon is kept. -/
theorem resolveHostAndPort_eq_self (hpy : Charwise py) {text : List Char} :
    resolveHostAndPort py text = text ↔ HostKept py (splitOnce ':' text).1 := by
  rw [resolveHostAndPort_eq]
  nth_rewrite 3 [takeWhile_append_splitOnce ':' text]
  rw [List.append_cancel_right_eq]
  constructor
  · intro h
    cases hnames : namesLoopback py (stripChars (splitOnce ':' text).1) with
    | false =>
      rw [resolveDockerHost_of_not hnames] at h
      exact ⟨h, by rw [← h]; exact hnames⟩
    | true =>
      obtain ⟨tail, htail, -⟩ := resolveDockerHost_of hnames
      exact absurd (h.symm.trans htail) (resolveDockerHost_ne hpy hnames tail)
  · exact HostKept.resolveDockerHost

theorem resolveConnectionUrl_bare {url : List Char} (h : hasScheme url = false) :
    resolveConnectionUrl py checks url = .ok (resolveHostAndPort py url) := by
  unfold resolveConnectionUrl
  rw [h]
  split_ifs with hempty
  · rw [hempty]
    rfl
  · rfl
  · exact absurd rfl ‹_›

end

end AltrStream.Connectors
