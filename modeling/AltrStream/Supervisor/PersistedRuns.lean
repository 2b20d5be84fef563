import AltrStream.Supervisor.Completion

/-! # Persisting image after image

After any number of images were persisted in turn, `.env` is as if only the last one had
been. So is the compose file, up to an image of a local name: references to it are not
found again, and stay.
-/
namespace AltrStream.Supervisor
open Python Foundations Foundations.Traced

/-! ### `.env` -/

theorem any_assigns_mono {p s : List Char} (h : p <+: s)
    (hany : (p.splitOn '\n').any assigns = true) : (s.splitOn '\n').any assigns = true := by
  obtain ⟨head, tail, head', tail', hp, hs, hhead, htail⟩ := exists_prefix_splitOn '\n' h
  rw [hp, List.any_cons, Bool.or_eq_true, List.any_eq_true] at hany
  rw [hs, List.any_cons, Bool.or_eq_true, List.any_eq_true]
  have hmono : ∀ line line' : List Char, line <+: line' → assigns line = true → assigns line' = true :=
    fun _ _ hle hline =>
      List.isPrefixOf_iff_prefix.2 ((List.isPrefixOf_iff_prefix.1 hline).trans hle)
  rcases hany with hline | ⟨line, hline, hassigns⟩
  · exact .inl (hmono _ _ hhead hline)
  · obtain ⟨line', hline', hle⟩ := htail line hline
    exact .inr ⟨line', hline', hmono _ _ hle hassigns⟩

/-- What a plain image makes of `.env`. -/
def envWith (image content : List Char) : List Char :=
  if (content.splitOn '\n').any assigns then
    joinLines ((content.splitOn '\n').map fun line =>
      if assigns line then assignment ++ image else line)
  else content.rdropWhile isspace ++ '\n' :: assignment ++ image ++ ['\n']

theorem newEnv_plain {image : List Char} (hplain : PlainImage image) (content : List Char) :
    newEnv image content = some (envWith image content) := by
  have hslash : '\\' ∉ assignment ++ image := by
    rw [List.mem_append, not_or]
    exact ⟨by decide, hplain.chars.1⟩
  unfold newEnv envWith
  dsimp only
  split_ifs with hany
  · rw [Template.parse_plain hslash, Option.map_some]
    simp only [Template.expand_plain]
  · rfl

theorem not_mem_assignment {image : List Char} (hplain : PlainImage image) :
    '\n' ∉ assignment ++ image := by
  rw [List.mem_append, not_or]
  exact ⟨by decide, hplain.chars.2.1⟩

theorem splitOn_appended {image : List Char} (hplain : PlainImage image) (content : List Char) :
    (content ++ '\n' :: assignment ++ image ++ ['\n']).splitOn '\n' =
      content.splitOn '\n' ++ [assignment ++ image, []] := by
  rw [List.append_assoc, List.append_assoc, List.cons_append, List.splitOn_append_cons_self,
    ← List.append_assoc, List.splitOn_append_cons_self,
    List.splitOn_eq_singleton (not_mem_assignment hplain)]
  rfl

theorem splitOn_envWith {image : List Char} (hplain : PlainImage image) (content : List Char) :
    (envWith image content).splitOn '\n' =
      if (content.splitOn '\n').any assigns then
        (content.splitOn '\n').map fun line => if assigns line then assignment ++ image else line
      else (content.rdropWhile isspace).splitOn '\n' ++ [assignment ++ image, []] := by
  unfold envWith
  split_ifs with hany
  · refine List.splitOn_intercalate _ (List.forall_mem_map.2 fun line hmem => ?_) ?_
    · split_ifs
      · exact not_mem_assignment hplain
      · exact not_mem_of_mem_splitOn hmem
    · rw [ne_eq, List.map_eq_nil_iff]
      exact List.splitOn_ne_nil '\n' content
  · exact splitOn_appended hplain _

/-- Of two images the last one is left. -/
theorem envWith_envWith {image image' content : List Char} (hplain : PlainImage image)
    (hplain' : PlainImage image') :
    envWith image' (envWith image content) = envWith image' content := by
  have hlines := splitOn_envWith hplain content
  have hassigns := assigns_append image
  rw [envWith, hlines]
  conv_rhs => rw [envWith]
  by_cases hany : (content.splitOn '\n').any assigns = true
  · have hsame : ∀ line : List Char,
        assigns (if assigns line = true then assignment ++ image else line) = assigns line := by
      intro line
      split_ifs with hline
      · rw [hassigns, hline]
      · rfl
    rw [if_pos hany, if_pos hany, if_pos]
    · rw [List.map_map]
      congr 2
      funext line
      rw [Function.comp_apply, hsame]
      split_ifs <;> rfl
    · rw [List.any_map]
      simpa only [Function.comp_def, hsame] using hany
  · have hstripped : ¬ ((content.rdropWhile isspace).splitOn '\n').any assigns = true := fun hline =>
      hany (any_assigns_mono (List.rdropWhile_prefix _ _) hline)
    rw [if_neg hany, if_neg hany, if_pos (by simp [hassigns]), List.map_append]
    have hkept : ((content.rdropWhile isspace).splitOn '\n').map (fun line =>
        if assigns line = true then assignment ++ image' else line) =
          (content.rdropWhile isspace).splitOn '\n' := by
      refine (List.map_congr_left fun line hline => if_neg fun hassigns => ?_).trans (List.map_id _)
      exact hstripped (List.any_eq_true.2 ⟨line, hline, hassigns⟩)
    rw [hkept, List.map_cons, if_pos hassigns]
    exact (congrArg joinLines (splitOn_appended hplain' _)).symm.trans (List.intercalate_splitOn '\n')

/-! ### The compose file -/

/-- References to this image are found again. -/
def isPublished (image : List Char) : Bool := published.isPrefixOf image

/-- What an image makes of the compose file. -/
def composeWith (image content : List Char) : List Char := (scan content).flatMap (rendered image)

/-- A part of the compose file after an image was written. -/
def replaced (image : List Char) : Char ⊕ ImageRef → Char ⊕ ImageRef
  | .inl c => .inl c
  | .inr r => .inr ⟨r.lead, opening, image, ['}']⟩

theorem rendered_replaced (image image' : List Char) (part : Char ⊕ ImageRef) :
    rendered image' (replaced image part) = rendered image' part := by
  cases part <;> rfl

section
variable {tag : List Char}

/-- A written reference, after the key. -/
theorem rendered_append (image : List Char) {s rest : List Char} {r : ImageRef}
    (hmatch : matchRef? s = some (r, rest)) (left : List Char) : ∃ spaces, (∀ c ∈ spaces, isspace c = true) ∧ r.lead = imageKey ++ spaces ∧
      rendered image (.inr r) ++ left =
        imageKey ++ (spaces ++ (opening ++ (image ++ '}' :: left))) := by
  obtain ⟨spaces, _, hspaces, -, hlead, -⟩ := matchRef?_eq_some hmatch
  exact ⟨spaces, hspaces, hlead, by simp [rendered, hlead]⟩

/-- Where a published image was written, the same references are found. -/
theorem scan_composeWith_published (hne : tag ≠ []) (htag : ∀ c ∈ tag, isTagChar c = true)
    (s : List Char) :
    scan (composeWith (published ++ tag) s) = (scan s).map (replaced (published ++ tag)) := by
  unfold composeWith
  induction hn : s.length using Nat.strong_induction_on generalizing s with
  | _ n ih =>
    cases hmatch : matchRef? s with
    | none =>
      cases s with
      | nil => simp [scan_nil]
      | cons c s =>
        rw [scan_of_no_match hmatch, List.flatMap_cons]
        change scan (c :: (scan s).flatMap (rendered (published ++ tag))) = _
        rw [scan_of_no_match (matchRef?_rendered hmatch), ih s.length (by rw [← hn]; simp) s rfl]
        rfl
    | some found =>
      obtain ⟨r, rest⟩ := found
      have hrest := ih rest.length (by rw [← hn]; exact length_of_matchRef? hmatch) rest rfl
      rw [scan_of_match hmatch, List.flatMap_cons]
      set left := (scan rest).flatMap (rendered (published ++ tag)) with hleft
      obtain ⟨spaces, hspaces, hlead, hwritten⟩ := rendered_append (published ++ tag) hmatch left
      have hfound := @matchRef?_tagged spaces opening tag ('}' :: left) hspaces (.inr rfl) hne htag
        (by simp [isTagChar])
      rw [hwritten, List.append_assoc, scan_of_match hfound, hrest, List.map_cons, replaced, hlead]

/-- Where an image of a local name was written, no references are found. -/
theorem scan_composeWith_local (hkey : ¬ imageKey <:+: tag) (s : List Char) :
    scan (composeWith (localName ++ tag) s) = (composeWith (localName ++ tag) s).map .inl := by
  unfold composeWith
  induction hn : s.length using Nat.strong_induction_on generalizing s with
  | _ n ih =>
    cases hmatch : matchRef? s with
    | none =>
      cases s with
      | nil => simp [scan_nil]
      | cons c s =>
        rw [scan_of_no_match hmatch, List.flatMap_cons]
        change scan (c :: (scan s).flatMap (rendered (localName ++ tag))) = _
        rw [scan_of_no_match (matchRef?_rendered hmatch), ih s.length (by rw [← hn]; simp) s rfl]
        rfl
    | some found =>
      obtain ⟨r, rest⟩ := found
      have hrest := ih rest.length (by rw [← hn]; exact length_of_matchRef? hmatch) rest rfl
      rw [scan_of_match hmatch, List.flatMap_cons]
      set left := (scan rest).flatMap (rendered (localName ++ tag)) with hleft
      obtain ⟨spaces, hspaces, -, hwritten⟩ := rendered_append (localName ++ tag) hmatch left
      have hlead : 'i' ∉ ['m', 'a', 'g', 'e', ':'] ++ (spaces ++ (opening ++ localName)) := by
        have hspaces' : 'i' ∉ spaces := fun hmem => absurd (hspaces _ hmem) (by decide)
        simp only [List.mem_append, not_or]
        exact ⟨by decide, hspaces', by decide, by decide⟩
      have hsplit : imageKey ++ (spaces ++ (opening ++ (localName ++ (tag ++ '}' :: left)))) =
          'i' :: (['m', 'a', 'g', 'e', ':'] ++ (spaces ++ (opening ++ localName)) ++
            (tag ++ '}' :: left)) := by
        simp [imageKey]
      rw [hwritten, List.append_assoc, hsplit,
        scan_of_no_match (hsplit ▸ matchRef?_unpublished hspaces rfl), scan_append_of_not_mem hlead,
        scan_append_of_tag hkey, hrest]
      simp

end

/-- Of two images the last one is left, or a first one that is not found again. -/
theorem composeWith_composeWith {image : List Char} (hplain : PlainImage image)
    (image' content : List Char) : composeWith image' (composeWith image content) =
      composeWith (if isPublished image then image' else image) content := by
  obtain ⟨tag, hne, htag, rfl | ⟨rfl, hkey⟩⟩ := hplain
  · have hspec : ∀ c ∈ tag, isTagChar c = true := fun c hc => (isPlainChar_spec (htag c hc)).1
    have hpublished : isPublished (published ++ tag) = true :=
      List.isPrefixOf_iff_prefix.2 (List.prefix_append _ _)
    rw [if_pos hpublished]
    conv_lhs => rw [composeWith]
    rw [scan_composeWith_published hne hspec, List.flatMap_map]
    simp only [rendered_replaced]
    rfl
  · have hlocal : isPublished (localName ++ tag) = false := rfl
    rw [hlocal, if_neg (by decide)]
    conv_lhs => rw [composeWith]
    rw [scan_composeWith_local hkey, List.flatMap_map]
    simp [rendered]

/-! ### Runs -/

/-- What reading a file answers. -/
def ConfigFile.read? : ConfigFile → Option (List Char)
  | .text content => some (universalNewlines content)
  | _ => none

/-- The host after an image was persisted. -/
def persisted (a : Answers) (h : Host) (image : String) : Host :=
  h.run (persistImageUpdate image h a).events

/-- Images are persisted one after the other. -/
def persistAll (a : Answers) (h : Host) (images : List String) : Host :=
  images.foldl (persisted a) h

section
variable {a : Answers} {h : Host} {image : String}

theorem read?_saved {new : List Char} (hnew : '\r' ∉ new) :
    (ConfigFile.text new).read? = some new :=
  congrArg some (universalNewlines_of_not_mem hnew)

theorem run_persistEnv (hplain : PlainImage image.toList)
    (hwritable : ∀ file, a.writeFailed file = none) (henv : h.env ≠ .undecodable) :
    (persistEnv image h a).result = .ok () ∧
      ∃ env, h.run (persistEnv image h a).events = { h with env } ∧
        env.read? = h.env.read?.map (envWith image.toList) ∧ env ≠ .undecodable := by
  obtain ⟨_, _, _, file, _⟩ := h
  cases file with
  | absent => exact ⟨rfl, .absent, rfl, rfl, by simp⟩
  | unreadable => exact ⟨rfl, .unreadable, rfl, rfl, by simp⟩
  | undecodable => exact absurd rfl henv
  | text old =>
    have hread := not_mem_newEnv hplain (not_mem_universalNewlines old) (newEnv_plain hplain _)
    simp only [persistEnv, newEnv_plain hplain, save, hwritable]
    exact ⟨rfl, .text _, rfl, read?_saved hread, by simp⟩

theorem run_persistCompose (hplain : PlainImage image.toList)
    (hwritable : ∀ file, a.writeFailed file = none) (hcompose : h.compose ≠ .undecodable) (h' : Host)
    (hsame : h'.compose = h.compose) :
    (persistCompose image h a).result = .ok () ∧
      ∃ compose, h'.run (persistCompose image h a).events = { h' with compose } ∧
        compose.read? = h.compose.read?.map (composeWith image.toList) ∧ compose ≠ .undecodable := by
  obtain ⟨_, _, _, _, file⟩ := h
  obtain ⟨_, _, _, _, file'⟩ := h'
  obtain rfl : file' = file := hsame
  cases file' with
  | absent => exact ⟨rfl, .absent, rfl, rfl, by simp⟩
  | unreadable => exact ⟨rfl, .unreadable, rfl, rfl, by simp⟩
  | undecodable => exact absurd rfl hcompose
  | text old =>
    have hread := not_mem_newCompose hplain (not_mem_universalNewlines old) (newCompose_plain hplain _)
    simp only [persistCompose, newCompose_plain hplain]
    split_ifs with hkept
    · exact ⟨rfl, .text old, rfl, congrArg some hkept.symm, by simp⟩
    · simp only [save, hwritable]
      exact ⟨rfl, .text _, rfl, read?_saved hread, by simp⟩

/-- Persisting a plain image changes the two files as it should, and raises nothing. -/
theorem persisted_spec (hplain : PlainImage image.toList)
    (hwritable : ∀ file, a.writeFailed file = none) (henv : h.env ≠ .undecodable)
    (hcompose : h.compose ≠ .undecodable) :
    (persistImageUpdate image h a).result = .ok () ∧
      (persisted a h image).env.read? = h.env.read?.map (envWith image.toList) ∧
      (persisted a h image).compose.read? = h.compose.read?.map (composeWith image.toList) ∧
      (persisted a h image).env ≠ .undecodable ∧ (persisted a h image).compose ≠ .undecodable := by
  obtain ⟨hok, env, hrun, hread, hdecodes⟩ := run_persistEnv hplain hwritable henv
  obtain ⟨hok', compose, hrun', hread', hdecodes'⟩ :=
    run_persistCompose hplain hwritable hcompose { h with env } rfl
  have hafter : persisted a h image = { h with env, compose } := by
    rw [persisted, persistImageUpdate, bind_of_ok hok, Host.run_append, hrun, hrun']
  rw [hafter]
  refine ⟨?_, hread, hread', hdecodes, hdecodes'⟩
  rw [persistImageUpdate, bind_of_ok hok]
  exact hok'

end

/-- The image that stays in the compose file: the first that is not found again, else the last. -/
def stays (image : String) : List String → String
  | [] => image
  | next :: images => if isPublished image.toList then stays next images else image

theorem stays_mem (image : String) (images : List String) : stays image images ∈ image :: images := by
  induction images generalizing image with
  | nil => exact List.mem_cons_self
  | cons next images ih =>
    rw [stays]
    split_ifs
    · exact List.mem_cons_of_mem _ (ih next)
    · exact List.mem_cons_self

/-- After any number of plain images were persisted, `.env` reads as if only the last one had been, and
the compose file as if only the one that stays. -/
theorem persistAll_spec {a : Answers} (hwritable : ∀ file, a.writeFailed file = none) {h : Host}
    (henv : h.env ≠ .undecodable) (hcompose : h.compose ≠ .undecodable) (image : String)
    (images : List String) (hplain : ∀ i ∈ image :: images, PlainImage i.toList) :
    (persistAll a h (image :: images)).env.read? =
        (persisted a h ((image :: images).getLast (List.cons_ne_nil _ _))).env.read? ∧
      (persistAll a h (image :: images)).compose.read? =
        (persisted a h (stays image images)).compose.read? := by
  induction images generalizing h image with
  | nil => exact ⟨rfl, rfl⟩
  | cons next images ih =>
    obtain ⟨hfirst, hrest⟩ := List.forall_mem_cons.1 hplain
    obtain ⟨-, henv₁, hcompose₁, henv', hcompose'⟩ := persisted_spec hfirst hwritable henv hcompose
    obtain ⟨ihEnv, ihCompose⟩ := ih henv' hcompose' next hrest
    have hspec := fun i (hi : i ∈ image :: next :: images) =>
      persisted_spec (hplain i hi) hwritable henv hcompose
    have hspec' := fun i (hi : i ∈ next :: images) =>
      persisted_spec (hrest i hi) hwritable henv' hcompose'
    constructor
    · have hlast := List.getLast_mem (List.cons_ne_nil next images)
      refine ihEnv.trans ?_
      rw [List.getLast_cons (List.cons_ne_nil next images), (hspec' _ hlast).2.1, henv₁,
        (hspec _ (List.mem_cons_of_mem _ hlast)).2.1, Option.map_map]
      congr 1
      funext content
      exact envWith_envWith hfirst (hrest _ hlast)
    · refine ihCompose.trans ?_
      have hstays := stays_mem next images
      rw [(hspec' _ hstays).2.2.1, hcompose₁, Option.map_map, (hspec _ (stays_mem image _)).2.2.1]
      congr 1
      funext content
      refine (composeWith_composeWith hfirst _ _).trans ?_
      rw [stays]
      split_ifs <;> rfl

/-- A release after a local image: the compose file keeps the local one. -/
theorem persistAll_local_release :
    let h : Host := { env := .text "PORT=8000".toList
                      compose := .text "image: ghcr.io/helloaltr/altr-stream:0.5".toList }
    let images := ["altr-stream:dev", "ghcr.io/helloaltr/altr-stream:0.6"]
    (persistAll {} h images).env.read? =
        (persisted {} h "ghcr.io/helloaltr/altr-stream:0.6").env.read? ∧
      (persistAll {} h images).compose.read? = (persisted {} h "altr-stream:dev").compose.read? :=
  persistAll_spec (fun _ => rfl) (by simp) (by simp) "altr-stream:dev" _ (by
    refine List.forall_mem_cons.2 ⟨⟨"dev".toList, by decide, by decide, .inr ⟨rfl, by decide⟩⟩, ?_⟩
    exact List.forall_mem_singleton.2 ⟨"0.6".toList, by decide, by decide, .inl rfl⟩)

end AltrStream.Supervisor
