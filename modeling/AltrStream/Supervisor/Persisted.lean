import AltrStream.Supervisor.Files

/-! # Reading a persisted image back

After a plain image has been written, the last assignment in `.env` and every
reference in the compose file name that image.
-/
namespace AltrStream.Supervisor
open Python Foundations

def localName : List Char := "altr-stream:".toList

/-- A tag character that a template leaves alone. -/
def isPlainChar (c : Char) : Bool := isTagChar c && c ≠ '\\'

/-- An image of an allowed name whose tag is copied as it is and hides no other reference. -/
def PlainImage (image : List Char) : Prop :=
  ∃ tag, tag ≠ [] ∧ (∀ c ∈ tag, isPlainChar c = true) ∧
    (image = published ++ tag ∨ image = localName ++ tag ∧ ¬ imageKey <:+: tag)

theorem isPlainChar_spec {c : Char} (h : isPlainChar c = true) :
    isTagChar c = true ∧ c ≠ '\\' ∧ isspace c = false ∧ c ≠ '}' := by
  simp only [isPlainChar, isTagChar, Bool.and_eq_true, Bool.not_eq_true', decide_eq_true_eq] at h ⊢
  exact ⟨h.1, h.2, h.1.1, h.1.2⟩

theorem PlainImage.chars {image : List Char} (h : PlainImage image) :
    '\\' ∉ image ∧ '\n' ∉ image ∧ '\r' ∉ image := by
  obtain ⟨tag, -, htag, hname⟩ := h
  have hmem : ∀ c ∈ image, c ∈ published ∨ c ∈ localName ∨ isPlainChar c = true := by
    intro c hc
    rcases hname with rfl | ⟨rfl, -⟩ <;> rcases List.mem_append.1 hc with hc | hc
    · exact .inl hc
    · exact .inr (.inr (htag c hc))
    · exact .inr (.inl hc)
    · exact .inr (.inr (htag c hc))
  refine ⟨fun hc => ?_, fun hc => ?_, fun hc => ?_⟩ <;> exact absurd (hmem _ hc) (by decide)

/-! ### `.env` -/

theorem assigns_append (image : List Char) : assigns (assignment ++ image) = true :=
  List.isPrefixOf_iff_prefix.2 (List.prefix_append _ _)

/-- The last assignment names the image that was written. -/
theorem envImages_newEnv {image content new : List Char} (hplain : PlainImage image)
    (h : newEnv image content = some new) : (envImages new).getLast? = some image := by
  unfold newEnv at h
  dsimp only at h
  split_ifs at h with hany
  · have hslash : '\\' ∉ assignment ++ image := by
      rw [List.mem_append, not_or]
      exact ⟨by decide, hplain.chars.1⟩
    rw [Template.parse_plain hslash, Option.map_some, Option.some.injEq] at h
    subst h
    have hexpand : ∀ line : List Char, (if assigns line then Template.expand [line]
        ((assignment ++ image).map .char) else line) =
        if assigns line then assignment ++ image else line := by
      intro line
      rw [Template.expand_plain]
    simp only [hexpand]
    set lines := content.splitOn '\n' with hlines
    have hnl : ∀ l ∈ lines.map (fun line => if assigns line then assignment ++ image else line),
        '\n' ∉ l := by
      rw [List.forall_mem_map]
      intro line hline
      split_ifs
      · rw [List.mem_append, not_or]
        exact ⟨by decide, hplain.chars.2.1⟩
      · exact not_mem_of_mem_splitOn hline
    have hne : lines.map (fun line => if assigns line then assignment ++ image else line) ≠ [] := by
      rw [ne_eq, List.map_eq_nil_iff]
      exact List.splitOn_ne_nil '\n' content
    rw [envImages, joinLines, List.splitOn_intercalate _ hnl hne, List.filterMap_map]
    have hsame : ((fun line => if assigns line = true then some (List.drop assignment.length line) else none) ∘
        fun line => if assigns line = true then assignment ++ image else line) =
        fun line => if assigns line = true then some image else none := by
      funext line
      simp only [Function.comp_apply]
      by_cases hline : assigns line = true
      · rw [if_pos hline, if_pos (assigns_append image), if_pos hline, List.drop_left]
      · rw [if_neg hline, if_neg hline, if_neg hline]
    rw [hsame]
    have hall : ∀ l ∈ lines.filterMap (fun line => if assigns line = true then some image else none),
        l = image := by
      intro l hl
      obtain ⟨line, -, hline⟩ := List.mem_filterMap.1 hl
      split_ifs at hline
      exact (Option.some.inj hline).symm
    obtain ⟨line, hline, hassigns⟩ := List.any_eq_true.1 hany
    have hmem : image ∈ lines.filterMap (fun line => if assigns line = true then some image else none) :=
      List.mem_filterMap.2 ⟨line, hline, if_pos hassigns⟩
    rw [List.getLast?_eq_some_getLast (List.ne_nil_of_mem hmem)]
    exact congrArg some (hall _ (List.getLast_mem _))
  · obtain rfl := Option.some.inj h
    have hline : '\n' ∉ assignment ++ image := by
      rw [List.mem_append, not_or]
      exact ⟨by decide, hplain.chars.2.1⟩
    have hsplit : (List.rdropWhile isspace content ++ '\n' :: assignment ++ image ++ ['\n']).splitOn '\n' =
        (List.rdropWhile isspace content).splitOn '\n' ++ [assignment ++ image, []] := by
      rw [List.append_assoc, List.append_assoc, List.cons_append, List.splitOn_append_cons_self,
        ← List.append_assoc, List.splitOn_append_cons_self, List.splitOn_eq_singleton hline]
      rfl
    rw [envImages, hsplit, List.filterMap_append]
    have hlast : [assignment ++ image, []].filterMap (fun line =>
        if assigns line = true then some (line.drop assignment.length) else none) = [image] := by
      rw [List.filterMap_cons, if_pos (assigns_append image), List.drop_left]
      rfl
    rw [hlast, List.getLast?_append]
    rfl


/-! ### The compose file -/

theorem splitOverride_spec (value : List Char) :
    ((splitOverride value).1 = [] ∨ (splitOverride value).1 = opening) ∧
      value = (splitOverride value).1 ++ (splitOverride value).2 := by
  unfold splitOverride
  cases hopen : value.dropPrefix? opening with
  | some named => exact ⟨.inr rfl, dropPrefix?_eq_some.1 hopen⟩
  | none => exact ⟨.inl rfl, rfl⟩

theorem closeRef_spec (lead override image rest : List Char) :
    (closeRef lead override image rest).1.lead = lead ∧
      (closeRef lead override image rest).1.override = override ∧
      (closeRef lead override image rest).1.image = image ∧
      (closeRef lead override image rest).1.text ++ (closeRef lead override image rest).2 =
        lead ++ (override ++ (image ++ rest)) := by
  unfold closeRef
  split <;> simp [ImageRef.text]

/-- What a match at the front looks like. -/
theorem matchRef?_eq_some {s rest : List Char} {r : ImageRef} (h : matchRef? s = some (r, rest)) :
    ∃ spaces tag, (∀ c ∈ spaces, isspace c = true) ∧ (r.override = [] ∨ r.override = opening) ∧
      r.lead = imageKey ++ spaces ∧ r.image = published ++ tag ∧ tag ≠ [] ∧
      (∀ c ∈ tag, isTagChar c = true) ∧ s = r.text ++ rest := by
  simp only [matchRef?, Option.bind_eq_bind, Option.bind_eq_some_iff, dropPrefix?_eq_some] at h
  obtain ⟨afterKey, rfl, tagged, htagged, hfound⟩ := h
  split_ifs at hfound with hempty
  have hclosed := closeRef_spec (imageKey ++ afterKey.takeWhile isspace)
    (splitOverride (afterKey.dropWhile isspace)).1 (published ++ tagged.takeWhile isTagChar)
    (tagged.dropWhile isTagChar)
  rw [Option.some.inj hfound] at hclosed
  obtain ⟨hlead, hoverride, himage, htext⟩ := hclosed
  obtain ⟨hopening, hvalue⟩ := splitOverride_spec (afterKey.dropWhile isspace)
  refine ⟨afterKey.takeWhile isspace, tagged.takeWhile isTagChar, fun _ => List.mem_takeWhile_imp,
    by rwa [hoverride], hlead, himage, hempty, fun _ => List.mem_takeWhile_imp, ?_⟩
  rw [htext, List.append_assoc, List.append_assoc, List.takeWhile_append_dropWhile, ← htagged, ← hvalue,
    List.takeWhile_append_dropWhile]

/-- A match is not empty. -/
theorem length_of_matchRef? {s rest : List Char} {r : ImageRef} (h : matchRef? s = some (r, rest)) :
    rest.length < s.length := by
  obtain ⟨spaces, tag, -, -, hlead, -, -, -, rfl⟩ := matchRef?_eq_some h
  rw [List.length_append, ImageRef.text, hlead]
  simp [imageKey]

theorem scanFuel_match {s rest : List Char} {r : ImageRef} (h : matchRef? s = some (r, rest)) (n : ℕ) :
    scanFuel (n + 1) s = .inr r :: scanFuel n rest := by
  rw [scanFuel]
  exact h

theorem scanFuel_no_match {c : Char} {s : List Char} (h : matchRef? (c :: s) = none) (n : ℕ) :
    scanFuel (n + 1) (c :: s) = .inl c :: scanFuel n s := scanFuel.eq_3 n c s h

/-- Enough fuel is as good as more. -/
theorem scanFuel_congr {s : List Char} {n m : ℕ} (hn : s.length ≤ n) (hm : s.length ≤ m) :
    scanFuel n s = scanFuel m s := by
  induction n generalizing s m with
  | zero =>
    obtain rfl := List.eq_nil_of_length_eq_zero (Nat.le_zero.1 hn)
    cases m <;> rfl
  | succ n ih =>
    cases m with
    | zero =>
      obtain rfl := List.eq_nil_of_length_eq_zero (Nat.le_zero.1 hm)
      rfl
    | succ m =>
      cases hmatch : matchRef? s with
      | some found =>
        obtain ⟨r, rest⟩ := found
        have hlt := length_of_matchRef? hmatch
        rw [scanFuel_match hmatch, scanFuel_match hmatch, ih (m := m) (by omega) (by omega)]
      | none =>
        cases s with
        | nil => rfl
        | cons c rest =>
          rw [List.length_cons] at hn hm
          rw [scanFuel_no_match hmatch, scanFuel_no_match hmatch, ih (m := m) (by omega) (by omega)]

theorem scan_of_match {s rest : List Char} {r : ImageRef} (h : matchRef? s = some (r, rest)) :
    scan s = .inr r :: scan rest := by
  have hlt := length_of_matchRef? h
  obtain ⟨n, hn⟩ := Nat.exists_eq_succ_of_ne_zero (Nat.ne_zero_of_lt hlt)
  rw [scan, hn, scanFuel_match h, scanFuel_congr (by omega) le_rfl, scan]

theorem scan_of_no_match {c : Char} {s : List Char} (h : matchRef? (c :: s) = none) :
    scan (c :: s) = .inl c :: scan s := scanFuel_no_match h _

theorem scan_nil : scan [] = [] := rfl

/-- A key with a tagged image behind it matches. -/
theorem matchRef?_tagged {spaces override tag rest : List Char}
    (hspaces : ∀ c ∈ spaces, isspace c = true) (hoverride : override = [] ∨ override = opening)
    (hne : tag ≠ []) (htag : ∀ c ∈ tag, isTagChar c = true)
    (hrest : ∀ c ∈ rest.head?, isTagChar c = false) :
    matchRef? (imageKey ++ (spaces ++ (override ++ (published ++ (tag ++ rest))))) =
      some (closeRef (imageKey ++ spaces) override (published ++ tag) rest) := by
  have hvalue : ∃ c s, override ++ (published ++ (tag ++ rest)) = c :: s ∧ isspace c = false := by
    rcases hoverride with rfl | rfl
    · exact ⟨'g', _, rfl, by decide⟩
    · exact ⟨'$', _, rfl, by decide⟩
  obtain ⟨c, s, hcs, hc⟩ := hvalue
  have htake : (spaces ++ (override ++ (published ++ (tag ++ rest)))).takeWhile isspace = spaces := by
    rw [List.takeWhile_append_of_pos hspaces, hcs, List.takeWhile_cons_of_neg (by simp [hc]),
      List.append_nil]
  have hdrop : (spaces ++ (override ++ (published ++ (tag ++ rest)))).dropWhile isspace =
      override ++ (published ++ (tag ++ rest)) := by
    rw [List.dropWhile_append_of_pos hspaces, hcs, List.dropWhile_cons_of_neg (by simp [hc])]
  have hsplit : splitOverride (override ++ (published ++ (tag ++ rest))) =
      (override, published ++ (tag ++ rest)) := by
    unfold splitOverride
    rcases hoverride with rfl | rfl
    · rfl
    · rw [dropPrefix?_append]
  have htail : (tag ++ rest).takeWhile isTagChar = tag ∧ (tag ++ rest).dropWhile isTagChar = rest := by
    rw [List.takeWhile_append_of_pos htag, List.dropWhile_append_of_pos htag]
    cases rest with
    | nil => simp
    | cons x rest =>
      have hx : isTagChar x = false := hrest x rfl
      simp [hx]
  simp only [matchRef?, dropPrefix?_append, Option.bind_eq_bind, Option.bind_some, htake, hdrop, hsplit, htail.1,
    htail.2, if_neg hne]
  rfl

/-- Whatever stands behind the first character of a tag, there is a match. -/
theorem matchRef?_isSome {spaces override : List Char} {x : Char} {rest : List Char}
    (hspaces : ∀ c ∈ spaces, isspace c = true) (hoverride : override = [] ∨ override = opening)
    (hx : isTagChar x = true) :
    matchRef? (imageKey ++ (spaces ++ (override ++ (published ++ x :: rest)))) ≠ none := by
  have hsplit : x :: rest = (x :: rest).takeWhile isTagChar ++ (x :: rest).dropWhile isTagChar :=
    List.takeWhile_append_dropWhile.symm
  rw [hsplit, matchRef?_tagged hspaces hoverride]
  · exact Option.some_ne_none _
  · simp [hx]
  · exact fun _ => List.mem_takeWhile_imp
  · intro c hc
    have hnot := List.head?_dropWhile_not isTagChar (x :: rest)
    rw [Option.mem_def.1 hc] at hnot
    simpa using hnot

/-! ### Scanning what was written -/

/-- Every `i` is followed by another letter than `m`, so that no `image:` starts here. -/
def clear : List Char → Bool
  | [] => true
  | c :: rest => (c ≠ 'i' || rest.head?.any (· ≠ 'm')) && clear rest

theorem clear_append {x : List Char} (h : 'i' ∉ x) (y : List Char) : clear (x ++ y) = clear y := by
  induction x with
  | nil => rfl
  | cons c x ih =>
    rw [List.mem_cons, not_or] at h
    rw [List.cons_append, clear, ih h.2]
    simp [Ne.symm h.1]

/-- What is written for a part of the compose file. -/
def rendered (image : List Char) : Char ⊕ ImageRef → List Char
  | .inl c => [c]
  | .inr r => r.lead ++ opening ++ image ++ ['}']

/-- What is scanned as a clear text in the new file is the same text in the old one. -/
theorem append_of_clear {image : List Char} {p s : List Char} (hclear : clear p = true)
    (h : p <+: (scan s).flatMap (rendered image)) :
    ∃ s', s = p ++ s' ∧
      (scan s).flatMap (rendered image) = p ++ (scan s').flatMap (rendered image) := by
  induction p generalizing s with
  | nil => exact ⟨s, rfl, rfl⟩
  | cons c p ih =>
    rw [clear, Bool.and_eq_true, Bool.or_eq_true] at hclear
    obtain ⟨hc, htail⟩ := hclear
    cases hmatch : matchRef? s with
    | some found =>
      obtain ⟨r, rest⟩ := found
      obtain ⟨spaces, _, -, -, hlead, -⟩ := matchRef?_eq_some hmatch
      rw [scan_of_match hmatch, List.flatMap_cons, rendered, hlead, imageKey] at h
      obtain ⟨rfl, h'⟩ := List.cons_prefix_cons.1 h
      cases p with
      | nil => simp at hc
      | cons d p =>
        obtain ⟨rfl, -⟩ := List.cons_prefix_cons.1 h'
        simp at hc
    | none =>
      cases s with
      | nil => simp [scan_nil] at h
      | cons x s =>
        rw [scan_of_no_match hmatch, List.flatMap_cons] at h ⊢
        obtain ⟨rfl, h'⟩ := List.cons_prefix_cons.1 h
        obtain ⟨s', rfl, heq⟩ := ih htail h'
        exact ⟨s', rfl, by rw [heq]; rfl⟩

/-- Where there was no reference there is none in the new file. -/
theorem matchRef?_rendered {image : List Char} {c : Char} {s : List Char}
    (h : matchRef? (c :: s) = none) :
    matchRef? (c :: (scan s).flatMap (rendered image)) = none := by
  by_contra hfound
  obtain ⟨⟨r, rest⟩, hmatch⟩ := Option.ne_none_iff_exists'.1 hfound
  obtain ⟨spaces, tag, hspaces, hoverride, hlead, himage, hne, htag, htext⟩ := matchRef?_eq_some hmatch
  obtain ⟨x, tag, rfl⟩ := List.exists_cons_of_ne_nil hne
  rw [ImageRef.text, hlead, himage, imageKey] at htext
  simp only [List.append_assoc, List.cons_append, List.nil_append] at htext
  obtain ⟨rfl, hwritten⟩ := List.cons.inj htext
  have hi : ∀ l : List Char, (∀ c ∈ l, isspace c = true) → 'i' ∉ l := fun l hl hmem =>
    absurd (hl _ hmem) (by decide)
  have hclear : clear (['m', 'a', 'g', 'e', ':'] ++ (spaces ++ (r.override ++ published))) = true := by
    rw [clear_append (by decide), clear_append (hi _ hspaces)]
    rcases hoverride with ho | ho <;> rw [ho] <;> decide
  have hinit : ['m', 'a', 'g', 'e', ':'] ++ (spaces ++ (r.override ++ published)) <+:
      (scan s).flatMap (rendered image) := by
    rw [hwritten]
    exact ⟨x :: (tag ++ (r.closing ++ rest)), by simp⟩
  obtain ⟨s', rfl, heq⟩ := append_of_clear hclear hinit
  -- what follows the name is a tag character in the old file too
  have hnext : ∃ y rest', s' = y :: rest' ∧ isTagChar y = true := by
    have hx : ∃ l, (scan s').flatMap (rendered image) = x :: l := by
      rw [hwritten] at heq
      simp only [List.append_assoc, List.cons_append, List.nil_append, List.cons.injEq, true_and,
        List.append_cancel_left_eq] at heq
      exact ⟨_, heq.symm⟩
    obtain ⟨l, hl⟩ := hx
    cases hs' : matchRef? s' with
    | some found =>
      obtain ⟨r', rest'⟩ := found
      obtain ⟨spaces', _, -, -, hlead', -, -, -, rfl⟩ := matchRef?_eq_some hs'
      rw [ImageRef.text, hlead', imageKey]
      exact ⟨'i', _, rfl, by decide⟩
    | none =>
      cases s' with
      | nil => simp [scan_nil] at hl
      | cons y rest' =>
        rw [scan_of_no_match hs', List.flatMap_cons] at hl
        obtain ⟨rfl, -⟩ := List.cons.inj hl
        exact ⟨y, rest', rfl, htag _ List.mem_cons_self⟩
  obtain ⟨y, rest', rfl, hy⟩ := hnext
  refine @matchRef?_isSome spaces _ y rest' hspaces hoverride hy ?_
  rw [imageKey]
  simpa using h

/-- No key starts in a text without its first letter. -/
theorem scan_append_of_not_mem {x : List Char} (h : 'i' ∉ x) (s : List Char) :
    scan (x ++ s) = x.map .inl ++ scan s := by
  induction x with
  | nil => rfl
  | cons c x ih =>
    rw [List.mem_cons, not_or] at h
    have hnone : matchRef? (c :: (x ++ s)) = none := by
      by_contra hfound
      obtain ⟨⟨r, rest⟩, hmatch⟩ := Option.ne_none_iff_exists'.1 hfound
      obtain ⟨spaces, _, -, -, hlead, -, -, -, htext⟩ := matchRef?_eq_some hmatch
      rw [ImageRef.text, hlead, imageKey] at htext
      exact h.1 (List.cons.inj htext).1.symm
    rw [List.cons_append, scan_of_no_match hnone, ih h.2]
    rfl

/-- No key starts in a tag that is closed. -/
theorem scan_append_of_tag {tag : List Char} (h : ¬ imageKey <:+: tag) (s : List Char) :
    scan (tag ++ '}' :: s) = (tag ++ ['}']).map .inl ++ scan s := by
  induction tag with
  | nil => exact @scan_append_of_not_mem ['}'] (by decide) s
  | cons c tag ih =>
    have hnone : matchRef? (c :: (tag ++ '}' :: s)) = none := by
      by_contra hfound
      obtain ⟨⟨r, rest⟩, hmatch⟩ := Option.ne_none_iff_exists'.1 hfound
      obtain ⟨spaces, _, -, -, hlead, -, -, -, htext⟩ := matchRef?_eq_some hmatch
      have hkey : imageKey <+: c :: (tag ++ '}' :: s) := by
        rw [htext, ImageRef.text, hlead]
        simp only [List.append_assoc]
        exact List.prefix_append _ _
      -- the key would end in the tag, or the brace would be in the key
      rcases List.prefix_or_prefix_of_prefix hkey (List.prefix_append (c :: tag) ('}' :: s)) with
        hle | hle
      · exact h hle.isInfix
      · have hlt : (c :: tag).length < imageKey.length := by
          refine hle.length_le.lt_of_ne fun heq => h ?_
          rw [hle.eq_of_length heq]
        have hbrace : c :: tag ++ ['}'] <+: imageKey :=
          List.prefix_of_prefix_length_le ⟨s, by simp⟩ hkey (by simp at hlt ⊢; omega)
        exact absurd (hbrace.subset (by simp)) (by decide : '}' ∉ imageKey)
    have htail : ¬ imageKey <:+: tag := fun hin => h (hin.trans (List.suffix_cons c tag).isInfix)
    rw [List.cons_append, scan_of_no_match hnone, ih htail]
    rfl

/-- Another name than the published one is no reference. -/
theorem matchRef?_unpublished {spaces named : List Char} (hspaces : ∀ c ∈ spaces, isspace c = true)
    (hnamed : named.dropPrefix? published = none) :
    matchRef? (imageKey ++ (spaces ++ (opening ++ named))) = none := by
  have hdrop : (spaces ++ (opening ++ named)).dropWhile isspace = opening ++ named := by
    rw [List.dropWhile_append_of_pos hspaces]
    exact List.dropWhile_cons_of_neg (by decide)
  have hsplit : splitOverride (opening ++ named) = (opening, named) := by
    rw [splitOverride, dropPrefix?_append]
  simp only [matchRef?, dropPrefix?_append, Option.bind_eq_bind, Option.bind_some, hdrop, hsplit, hnamed,
    Option.bind_none]

/-- The references in what is written are to the image alone. -/
theorem composeImages_rendered {image : List Char} (hplain : PlainImage image) (s : List Char) :
    ∀ found ∈ composeImages ((scan s).flatMap (rendered image)), found = image := by
  obtain ⟨tag, hne, htag, hname⟩ := hplain
  have hspec : ∀ c ∈ tag, isTagChar c = true := fun c hc => (isPlainChar_spec (htag c hc)).1
  induction hn : s.length using Nat.strong_induction_on generalizing s with
  | _ n ih =>
    cases hmatch : matchRef? s with
    | none =>
      cases s with
      | nil => simp [scan_nil, composeImages]
      | cons c s =>
        rw [scan_of_no_match hmatch, List.flatMap_cons]
        change ∀ found ∈ composeImages (c :: (scan s).flatMap (rendered image)), _
        rw [composeImages, scan_of_no_match (matchRef?_rendered hmatch)]
        exact ih s.length (by rw [← hn]; simp) s rfl
    | some found =>
      obtain ⟨r, rest⟩ := found
      obtain ⟨spaces, _, hspaces, -, hlead, -⟩ := matchRef?_eq_some hmatch
      have hrest := ih rest.length (by rw [← hn]; exact length_of_matchRef? hmatch) rest rfl
      rw [scan_of_match hmatch, List.flatMap_cons]
      set left := (scan rest).flatMap (rendered image) with hleft
      have hwritten : rendered image (.inr r) ++ left =
          imageKey ++ (spaces ++ (opening ++ (image ++ '}' :: left))) := by
        simp [rendered, hlead]
      rw [hwritten]
      rcases hname with rfl | ⟨rfl, hkey⟩
      · have hfound := @matchRef?_tagged spaces opening tag ('}' :: left) hspaces (.inr rfl) hne hspec
          (by simp [isTagChar])
        rw [composeImages, List.append_assoc, scan_of_match hfound]
        exact List.forall_mem_cons.2 ⟨rfl, hrest⟩
      · have hlead' : 'i' ∉ ['m', 'a', 'g', 'e', ':'] ++ (spaces ++ (opening ++ localName)) := by
          have hspaces' : 'i' ∉ spaces := fun hmem => absurd (hspaces _ hmem) (by decide)
          simp only [List.mem_append, not_or]
          exact ⟨by decide, hspaces', by decide, by decide⟩
        have hsplit : imageKey ++ (spaces ++ (opening ++ (localName ++ (tag ++ '}' :: left)))) =
            'i' :: (['m', 'a', 'g', 'e', ':'] ++ (spaces ++ (opening ++ localName)) ++
              (tag ++ '}' :: left)) := by
          simp [imageKey]
        rw [composeImages, List.append_assoc, hsplit, scan_of_no_match (hsplit ▸ matchRef?_unpublished hspaces rfl),
          scan_append_of_not_mem hlead', scan_append_of_tag hkey]
        simpa [composeImages, List.filterMap_append, List.filterMap_cons, List.filterMap_map,
          Function.comp_def] using hrest

theorem newCompose_plain {image : List Char} (hplain : PlainImage image) (content : List Char) :
    newCompose image content = some ((scan content).flatMap (rendered image)) := by
  have hslash : '\\' ∉ opening ++ image ++ ['}'] := by
    simp only [List.mem_append, not_or]
    exact ⟨⟨by decide, hplain.chars.1⟩, by decide⟩
  have hparse : Template.parse 3 (composeTemplate image) =
      some (.group 1 :: (opening ++ image ++ ['}']).map .char) :=
    Template.parse_first_group (by decide) (by decide) hslash
  rw [newCompose, hparse, Option.map_some, Option.some.injEq]
  refine List.flatMap_congr fun part _ => ?_
  cases part with
  | inl c => rfl
  | inr r =>
    change r.lead ++ Template.expand _ ((opening ++ image ++ ['}']).map .char) = _
    rw [Template.expand_plain]
    simp [rendered]

/-- Every reference in the new compose file is to the image that was written. -/
theorem composeImages_newCompose {image content new : List Char} (hplain : PlainImage image)
    (h : newCompose image content = some new) : ∀ found ∈ composeImages new, found = image := by
  rw [newCompose_plain hplain] at h
  obtain rfl := Option.some.inj h
  exact composeImages_rendered hplain content

/-! ### Line ends -/

theorem not_mem_universalNewlines (s : List Char) : '\r' ∉ universalNewlines s := by
  fun_induction universalNewlines s <;> simp_all [eq_comm]

theorem universalNewlines_of_not_mem {s : List Char} (h : '\r' ∉ s) : universalNewlines s = s := by
  fun_induction universalNewlines s <;> simp_all

/-- Persisting a plain image writes no carriage return. -/
theorem not_mem_newEnv {image content new : List Char} (hplain : PlainImage image)
    (hcontent : '\r' ∉ content) (h : newEnv image content = some new) : '\r' ∉ new := by
  have himage : '\r' ∉ assignment ++ image := by
    rw [List.mem_append, not_or]
    exact ⟨by decide, hplain.chars.2.2⟩
  unfold newEnv at h
  dsimp only at h
  split_ifs at h with hany
  · have hslash : '\\' ∉ assignment ++ image := by
      rw [List.mem_append, not_or]
      exact ⟨by decide, hplain.chars.1⟩
    rw [Template.parse_plain hslash, Option.map_some, Option.some.injEq] at h
    subst h
    refine not_mem_intercalate (by decide) (List.forall_mem_map.2 fun line hline => ?_)
    rw [Template.expand_plain]
    split_ifs
    · exact himage
    · exact fun hr => hcontent (mem_of_mem_splitOn hline hr)
  · obtain rfl := Option.some.inj h
    have hstripped : '\r' ∉ content.rdropWhile isspace := fun hr =>
      hcontent ((List.rdropWhile_prefix _ _).mem hr)
    simp only [List.mem_append, List.mem_cons, not_or] at himage ⊢
    exact ⟨⟨⟨hstripped, by decide, himage.1⟩, himage.2⟩, by decide, List.not_mem_nil⟩

/-- The parts of a scanned text are the text. -/
theorem text_of_scan (s : List Char) :
    (scan s).flatMap (Sum.elim (fun c => [c]) ImageRef.text) = s := by
  induction hn : s.length using Nat.strong_induction_on generalizing s with
  | _ n ih =>
    cases hmatch : matchRef? s with
    | none =>
      cases s with
      | nil => rfl
      | cons c s =>
        rw [scan_of_no_match hmatch, List.flatMap_cons, ih s.length (by simp [← hn]) s rfl]
        rfl
    | some found =>
      obtain ⟨r, rest⟩ := found
      have hlt := length_of_matchRef? hmatch
      obtain ⟨spaces, tag, -, -, -, -, -, -, htext⟩ := matchRef?_eq_some hmatch
      rw [scan_of_match hmatch, List.flatMap_cons, ih rest.length (by omega) rest rfl, htext]
      rfl

theorem not_mem_newCompose {image content new : List Char} (hplain : PlainImage image)
    (hcontent : '\r' ∉ content) (h : newCompose image content = some new) : '\r' ∉ new := by
  rw [newCompose_plain hplain] at h
  obtain rfl := Option.some.inj h
  intro hr
  obtain ⟨part, hpart, hr⟩ := List.mem_flatMap.1 hr
  have htext : ∀ c ∈ Sum.elim (fun c => [c]) ImageRef.text part, c ≠ '\r' := by
    intro c hc heq
    rw [← text_of_scan content] at hcontent
    exact hcontent (List.mem_flatMap.2 ⟨part, hpart, heq ▸ hc⟩)
  cases part with
  | inl c => exact htext _ (List.mem_singleton.2 rfl) (List.mem_singleton.1 hr).symm
  | inr r =>
    simp only [rendered, List.mem_append, or_assoc] at hr
    rcases hr with hr | hr | hr | hr
    · exact htext _ (by simp [ImageRef.text, hr]) rfl
    · exact absurd hr (by decide)
    · exact hplain.chars.2.2 hr
    · exact absurd hr (by decide)

end AltrStream.Supervisor
