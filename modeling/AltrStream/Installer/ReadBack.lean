import AltrStream.Installer.KeyedLines

/-! # Reading the written configuration back

What the readers find in the files that `WriteRuntimeFiles` has rendered.
-/
namespace AltrStream.Installer
open Foundations Go

/-- A character with a meaning in YAML, or a quote. -/
def isMeta (c : Char) : Bool := "\"':#\x7b\x7d[],&*!|>%@`".toList.contains c

/-- A name without white space, quotes and YAML metacharacters; an initial dash is one. -/
def WellFormed (s : Text) : Prop := (∀ c ∈ s, isSpace c = false ∧ isMeta c = false) ∧ s.head? ≠ some '-'

instance (s : Text) : Decidable (WellFormed s) := inferInstanceAs (Decidable ((∀ _ ∈ _, _) ∧ _))

theorem isMeta_of_mem : ∀ c ∈ ['"', '\'', ':', '#'], isMeta c = true := by
  unfold isMeta
  rw [String.toList_ofList]
  decide

section
variable {name : Text}

theorem WellFormed.spaceless (h : WellFormed name) : Spaceless name := fun c hc => (h.1 c hc).1

theorem WellFormed.not_mem {c : Char} (h : WellFormed name) (hc : c ∈ ['"', '\'', ':', '#']) :
    c ∉ name := by
  intro hmem
  have hmeta := isMeta_of_mem c hc
  rw [(h.1 c hmem).2] at hmeta
  cases hmeta

end

/-! ### The rendered compose file -/

/-- The lines that are the same for every configuration. -/
def fixedLines : List Text :=
  ["services:".toList, "    restart: unless-stopped".toList, "    ports:".toList, "    labels:".toList,
   "      - \"com.helloaltr.altr-stream.managed-by=installer\"".toList, "    environment:".toList,
   "      - ALTR_STREAM_HOST=0.0.0.0".toList, "      - ALTR_STREAM_PORT=8000".toList,
   "      - ALTR_STREAM_DATABASE_URL=sqlite+aiosqlite:////app/data/altr_stream.db".toList,
   "      - ALTR_STREAM_STATIC_DIR=/app/static".toList, "      - ALTR_STREAM_DEBUG=false".toList,
   ("      - ALTR_STREAM_FEEDBACK_SERVICE_URL=$\x7bALTR_STREAM_FEEDBACK_SERVICE_URL:-" ++
     "https://altr-feedback.onrender.com\x7d").toList,
   "      - ALTR_FEEDBACK_API_KEY=$\x7bALTR_FEEDBACK_API_KEY:-\x7d".toList, "    volumes:".toList,
   "      - ./data/updates:/app/data/updates".toList, "    healthcheck:".toList,
   ("      test: [\"CMD-SHELL\", \"curl -f http://localhost:8000/api/v1/health || exit 1\"]").toList,
   "      interval: 15s".toList, "      timeout: 5s".toList, "      retries: 3".toList,
   "      start_period: 10s".toList, "    networks:".toList, [], "volumes:".toList,
   "    driver: local".toList, "networks:".toList, "    driver: bridge".toList]

/-- The fixed lines have no line break and name no volume. -/
theorem fixedLines_plain : ∀ line ∈ fixedLines,
    '\n' ∉ line ∧ (remainder "name:".toList line).getD [] = [] := by
  unfold fixedLines
  rw [String.toList_append]
  -- The literals are spelled out first: to decode them is what would take long.
  repeat rw [String.toList_ofList]
  decide

section
variable {image cName volName netName envLabel : Text} {port : ℤ}

/-- A property of the fixed lines and of those with a value holds of every line. -/
theorem forall_composeLines {p : Text → Prop} (hfixed : ∀ line ∈ fixedLines, p line)
    (himage : p ("    image: $\x7bALTR_STREAM_IMAGE:-".toList ++ image ++ "\x7d".toList))
    (hname : p ("    container_name: ".toList ++ cName))
    (hport : p ("      - \"".toList ++ itoa port ++ ":8000\"".toList))
    (hlabel : p ("      - \"com.helloaltr.altr-stream.environment=".toList ++ envLabel ++ "\"".toList))
    (hinstance : p ("      - \"com.helloaltr.altr-stream.instance=".toList ++ cName ++ "\"".toList))
    (hmount : p ("      - ".toList ++ volName ++ ":/app/data".toList))
    (hnetwork : p ("      - ".toList ++ netName))
    (hkeys : ∀ name ∈ [cName, volName, netName], p ("  ".toList ++ name ++ ":".toList)) :
    ∀ line ∈ composeLines image port cName volName netName envLabel, p line := by
  simp only [List.forall_mem_cons, List.not_mem_nil, false_imp_iff, implies_true, and_true, fixedLines,
    composeLines] at hfixed hkeys ⊢
  simp only [himage, hname, hport, hlabel, hinstance, hmount, hnetwork, hkeys, hfixed, and_self]

/-- No value has a line break. -/
theorem newline_composeLines (himage : Spaceless image) (hport : 0 < port) (hname : WellFormed cName)
    (hvolume : WellFormed volName) (hnetwork : WellFormed netName) (hlabel : '\n' ∉ envLabel) :
    ∀ line ∈ composeLines image port cName volName netName envLabel, '\n' ∉ line := by
  have hc := hname.spaceless.newline
  have hv := hvolume.spaceless.newline
  have hn := hnetwork.spaceless.newline
  have hi := himage.newline
  have hp := (spaceless_itoa hport).newline
  have hbetween : ∀ {before after : List Char} {value : Text}, '\n' ∉ value → '\n' ∉ before →
      '\n' ∉ after → '\n' ∉ (String.ofList before).toList ++ value ++ (String.ofList after).toList := by
    intro before after value hvalue hbefore hafter
    simp only [List.mem_append, not_or]
    exact ⟨⟨not_mem_literal hbefore, hvalue⟩, not_mem_literal hafter⟩
  refine forall_composeLines (fun line hline => (fixedLines_plain line hline).1)
    (hbetween hi (by decide) (by decide)) ?_ (hbetween hp (by decide) (by decide))
    (hbetween hlabel (by decide) (by decide)) (hbetween hc (by decide) (by decide))
    (hbetween hv (by decide) (by decide)) ?_ ?_
  · exact List.not_mem_append (not_mem_literal (by decide)) hc
  · exact List.not_mem_append (not_mem_literal (by decide)) hn
  · simp only [List.forall_mem_cons, List.not_mem_nil, false_imp_iff, implies_true, and_true]
    exact ⟨hbetween hc (by decide) (by decide), hbetween hv (by decide) (by decide),
      hbetween hn (by decide) (by decide)⟩

/-- The line of a name has nothing behind its colon. -/
theorem remainder_nameLine (word : Text) {name v : Text} (hname : WellFormed name)
    (h : remainder (word ++ [':']) ("  ".toList ++ name ++ ":".toList) = some v) : v = [] := by
  have htrim : trimSpace ("  ".toList ++ name ++ ":".toList) = name ++ ":".toList := by
    rw [List.append_assoc, trimSpace_append (forall_mem_literal (by decide)),
      trimSpace_of_forall (hname.spaceless.append (forall_mem_literal (by decide)))]
  rw [remainder, htrim, dropPrefix?_eq_some, List.append_assoc, List.singleton_append] at h
  exact ((List.append_cons_inj_of_notMem (hname.not_mem (by decide)) (List.not_mem_nil (a := ':'))).1
    h).2.2.symm

/-- The container's name is the first one that a reader finds. -/
theorem firstValue_composeLines (hname : WellFormed cName) (hne : cName ≠ [])
    (hlines : ∀ line ∈ composeLines image port cName volName netName envLabel, '\n' ∉ line) :
    firstValue "container_name:".toList
      (joinLines (composeLines image port cName volName netName envLabel)) = some cName := by
  have hservices : valueOf? "container_name:".toList "services:".toList = none := by decide
  have himage : valueOf? "container_name:".toList
      ("    image: $\x7bALTR_STREAM_IMAGE:-".toList ++ image ++ "\x7d".toList) = none := by
    rw [valueOf?_eq, remainder_of_head (c := 'i') (k := 'c') rfl rfl (by decide), Option.map_none]
  have hvalue : valueOf? "container_name:".toList ("    container_name: ".toList ++ cName) = some cName := by
    obtain ⟨before, last, hconcat⟩ := (List.eq_nil_or_concat' cName).resolve_left hne
    have htrim : trimSpace ("    container_name: ".toList ++ cName) = "container_name:".toList ++ ' ' :: cName := by
      have hlast := hname.spaceless last (by simp [hconcat])
      change trimSpace ("    ".toList ++ ("container_name: ".toList ++ cName)) = _
      rw [trimSpace_append (forall_mem_literal (by decide)), hconcat, ← List.append_assoc]
      exact trimSpace_cons_concat (s := "ontainer_name: ".toList ++ before) (a := 'c') (by decide) hlast
    rw [valueOf?, htrim, dropPrefix?_append, Option.map_some, ← List.singleton_append,
      trimSpace_append (by decide), trimSpace_of_forall hname.spaceless]
  unfold firstValue lines joinLines
  rw [List.splitOn_intercalate _ hlines (List.cons_ne_nil _ _)]
  unfold composeLines
  rw [List.filterMap_cons_none hservices]
  cases hkey : valueOf? "container_name:".toList ("  ".toList ++ cName ++ ":".toList) with
  | none =>
    rw [List.filterMap_cons_none hkey, List.filterMap_cons_none himage, List.filterMap_cons_some hvalue,
      List.find?_cons_of_pos (by simpa using hne)]
  | some v =>
    obtain ⟨v', hv', rfl⟩ := Option.map_eq_some_iff.1 hkey
    rw [remainder_nameLine "container_name".toList hname hv'] at hkey
    rw [List.filterMap_cons_some hkey, List.find?_cons_of_neg (by decide), List.filterMap_cons_none himage,
      List.filterMap_cons_some hvalue, List.find?_cons_of_pos (by simpa using hne)]

/-- Without a named volume behind a `volumes:` line nothing is found. -/
theorem composeVolume_eq_none {ls : List Text}
    (h : ∀ line ∈ ls, (remainder "name:".toList line).getD [] = []) (inVolumes : Bool) :
    composeVolume inVolumes ls = none := by
  induction ls generalizing inVolumes with
  | nil => rfl
  | cons line ls ih =>
    obtain ⟨hline, hls⟩ := List.forall_mem_cons.1 h
    unfold remainder at hline
    unfold composeVolume
    dsimp only
    split
    · exact ih hls true
    · split
      · rename_i v hv
        rw [hv, Option.getD_some] at hline
        rw [hline, if_pos (by decide)]
        exact ih hls _
      · exact ih hls _

theorem composeVolume_composeLines (hname : WellFormed cName) (hvolume : WellFormed volName)
    (hnetwork : WellFormed netName) :
    composeVolume false (composeLines image port cName volName netName envLabel) = none := by
  have hhead : ∀ {line : Text} {c : Char}, (line.dropWhile isSpace).head? = some c → c ≠ 'n' →
      (remainder "name:".toList line).getD [] = [] := by
    intro line c hc hne
    rw [remainder_of_head hc rfl hne]
    rfl
  refine composeVolume_eq_none (forall_composeLines (fun line hline => (fixedLines_plain line hline).2)
    (hhead (c := 'i') rfl (by decide))
    (hhead (c := 'c') rfl (by decide)) (hhead (c := '-') rfl (by decide)) (hhead (c := '-') rfl (by decide))
    (hhead (c := '-') rfl (by decide)) (hhead (c := '-') rfl (by decide)) (hhead (c := '-') rfl (by decide))
    fun name hmem => ?_) false
  have hwell : WellFormed name := by
    simp only [List.mem_cons, List.not_mem_nil, or_false] at hmem
    rcases hmem with rfl | rfl | rfl <;> assumption
  cases hv : remainder "name:".toList ("  ".toList ++ name ++ ":".toList) with
  | none => rfl
  | some v => exact remainder_nameLine "name".toList hwell hv

/-! ### The declared volume -/

theorem stripYAMLComment_of_not_mem {s : Text} (h : '#' ∉ s) (inSingle inDouble : Bool) :
    stripYAMLComment inSingle inDouble s = s := by
  induction s generalizing inSingle inDouble with
  | nil => rfl
  | cons c s ih =>
    obtain ⟨hne, hs⟩ : c ≠ '#' ∧ '#' ∉ s := by simpa [eq_comm] using h
    unfold stripYAMLComment
    rw [ih hs, ih hs, ih hs]
    simp [hne]

section
variable {vol line : Text} {s : ComposeScan}

@[simp] theorem inServices_serviceLine : (serviceLine vol s line).inServices = s.inServices := by
  unfold serviceLine
  split_ifs <;> rfl

@[simp] theorem inTopVolumes_serviceLine : (serviceLine vol s line).inTopVolumes = s.inTopVolumes := by
  unfold serviceLine
  split_ifs <;> rfl

@[simp] theorem inServices_volumeLine : (volumeLine vol s line).inServices = s.inServices := by
  unfold volumeLine
  split_ifs <;> rfl

@[simp] theorem inServiceVolumes_volumeLine :
    (volumeLine vol s line).inServiceVolumes = s.inServiceVolumes := by
  unfold volumeLine
  split_ifs <;> rfl

@[simp] theorem hasServiceMount_volumeLine : (volumeLine vol s line).hasServiceMount = s.hasServiceMount := by
  unfold volumeLine
  split_ifs <;> rfl

/-- What was found stays found. -/
theorem found_scanLine : (s.hasServiceMount = true → (scanLine vol s line).hasServiceMount = true) ∧
    (s.hasTopLevelVolume = true → (scanLine vol s line).hasTopLevelVolume = true) := by
  have htop : ∀ trimmed, (topLevel s trimmed).hasServiceMount = s.hasServiceMount ∧
      (topLevel s trimmed).hasTopLevelVolume = s.hasTopLevelVolume := by
    intro trimmed
    unfold topLevel
    split_ifs <;> exact ⟨rfl, rfl⟩
  have hservice : ∀ trimmed, (s.hasServiceMount = true → (serviceLine vol s trimmed).hasServiceMount = true) ∧
      (serviceLine vol s trimmed).hasTopLevelVolume = s.hasTopLevelVolume := by
    intro trimmed
    unfold serviceLine
    split_ifs <;> simp +contextual
  have hvolume : ∀ s' trimmed, s'.hasTopLevelVolume = true →
      (volumeLine vol s' trimmed).hasTopLevelVolume = true := by
    intro s' trimmed h
    unfold volumeLine
    split_ifs
    · rfl
    · exact h
  unfold scanLine
  dsimp only
  split_ifs
  · exact ⟨id, id⟩
  · rw [(htop _).1, (htop _).2]
    exact ⟨id, id⟩
  · refine ⟨fun h => ?_, fun h => hvolume _ _ ((hservice _).2.trans h)⟩
    rw [hasServiceMount_volumeLine]
    exact (hservice _).1 h

theorem found_foldl_scanLine {ls : List Text} :
    (s.hasServiceMount = true → (ls.foldl (scanLine vol) s).hasServiceMount = true) ∧
    (s.hasTopLevelVolume = true → (ls.foldl (scanLine vol) s).hasTopLevelVolume = true) := by
  induction ls generalizing s with
  | nil => exact ⟨id, id⟩
  | cons line ls ih =>
    exact ⟨fun h => ih.1 (found_scanLine.1 h), fun h => ih.2 (found_scanLine.2 h)⟩

theorem scanLine_of_blank (h : trimSpace (stripYAMLComment false false line) = []) : scanLine vol s line = s :=
  if_pos h

/-- An indented line is scanned inside its section. -/
theorem scanLine_indented (hline : line.head? = some ' ')
    (h : trimSpace (stripYAMLComment false false line) ≠ []) : scanLine vol s line =
      volumeLine vol (serviceLine vol s (trimSpace (stripYAMLComment false false line)))
        (trimSpace (stripYAMLComment false false line)) := by
  obtain ⟨rest, rfl⟩ : ∃ rest, line = ' ' :: rest := by
    cases line with
    | nil => cases hline
    | cons c rest => exact ⟨rest, by rw [Option.some.inj hline]⟩
  have hhead : (stripYAMLComment false false (' ' :: rest)).head? = some ' ' := rfl
  unfold scanLine
  dsimp only
  rw [if_neg h, hhead, if_neg (by decide)]

theorem inServices_foldl_scanLine {ls : List Text} (h : ∀ line ∈ ls, line.head? = some ' ') :
    (ls.foldl (scanLine vol) s).inServices = s.inServices := by
  induction ls generalizing s with
  | nil => rfl
  | cons line ls ih =>
    obtain ⟨hline, hls⟩ := List.forall_mem_cons.1 h
    rw [List.foldl_cons, ih hls]
    by_cases hblank : trimSpace (stripYAMLComment false false line) = []
    · rw [scanLine_of_blank hblank]
    · rw [scanLine_indented hline hblank, inServices_volumeLine, inServices_serviceLine]

/-- The `volumes:` line of a service. -/
theorem inServiceVolumes_scanLine (h : s.inServices = true) :
    (scanLine vol s "    volumes:".toList).inServices = true ∧
      (scanLine vol s "    volumes:".toList).inServiceVolumes = true := by
  have htrim : trimSpace (stripYAMLComment false false "    volumes:".toList) = "volumes:".toList := by
    decide
  rw [scanLine_indented rfl (htrim ▸ List.cons_ne_nil _ _), htrim, inServices_volumeLine,
    inServices_serviceLine, inServiceVolumes_volumeLine]
  simp [serviceLine, h]

theorem WellFormed.hash {text : Text} (hvol : WellFormed vol) (h : '#' ∉ text) : '#' ∉ text ++ vol :=
  List.not_mem_append h (hvol.not_mem (by decide))

theorem WellFormed.quotes (hvol : WellFormed vol) {text : Text} (h : ∀ c ∈ text, c ≠ '"' ∧ c ≠ '\'') :
    trimQuotes (vol ++ text) = vol ++ text := by
  refine trimQuotes_of_forall (List.forall_mem_append.2 ⟨fun c hc => ⟨?_, ?_⟩, h⟩)
  · rintro rfl
    exact hvol.not_mem (by decide) hc
  · rintro rfl
    exact hvol.not_mem (by decide) hc

theorem mountsVolume_entry (hvol : WellFormed vol) :
    mountsVolume vol ("- ".toList ++ vol ++ ":/app/data".toList) = true := by
  have hitem : trimQuotes (trimSpace (trimPrefix ("- ".toList ++ vol ++ ":/app/data".toList) ['-'])) =
      vol ++ ":/app/data".toList := by
    have hinit : trimPrefix ("- ".toList ++ vol ++ ":/app/data".toList) ['-'] =
        [' '] ++ (vol ++ ":/app/data".toList) := by
      rw [trimPrefix, List.append_assoc]
      change ((['-'] ++ ' ' :: (vol ++ ":/app/data".toList)).dropPrefix? ['-']).getD _ = _
      rw [dropPrefix?_append]
      rfl
    rw [hinit, trimSpace_append (by decide),
      trimSpace_of_forall (hvol.spaceless.append (forall_mem_literal (by decide))), hvol.quotes (forall_mem_literal (by decide))]
  have hsplit : (vol ++ ":/app/data".toList).splitOn ':' = [vol, "/app/data".toList] := by
    have hcolon : ∀ part ∈ [vol, "/app/data".toList], ':' ∉ part := by
      simp only [List.forall_mem_cons, List.not_mem_nil, false_imp_iff, implies_true, and_true]
      exact ⟨hvol.not_mem (by decide), not_mem_literal (by decide)⟩
    have hjoin : [':'].intercalate [vol, "/app/data".toList] = vol ++ ":/app/data".toList := by
      rw [List.intercalate_cons_cons, List.intercalate_singleton, List.append_assoc]
      rfl
    rw [← hjoin, List.splitOn_intercalate _ hcolon (List.cons_ne_nil _ _)]
  have hpath : trimSpace "/app/data".toList = "/app/data".toList :=
    trimSpace_of_forall (forall_mem_literal (by decide))
  unfold mountsVolume
  rw [hitem, hsplit]
  simp only [trimSpace_of_forall hvol.spaceless, hpath, decide_true, Bool.and_self]

/-- The entry of the volume in the list of a service. -/
theorem hasServiceMount_scanLine (hvol : WellFormed vol) (hservices : s.inServices = true)
    (hvolumes : s.inServiceVolumes = true) :
    (scanLine vol s ("      - ".toList ++ vol ++ ":/app/data".toList)).hasServiceMount = true := by
  have hstrip : stripYAMLComment false false ("      - ".toList ++ vol ++ ":/app/data".toList) =
      "      - ".toList ++ vol ++ ":/app/data".toList := stripYAMLComment_of_not_mem
    (List.not_mem_append (hvol.hash (not_mem_literal (by decide))) (not_mem_literal (by decide))) _ _
  have htrim : trimSpace ("      - ".toList ++ vol ++ ":/app/data".toList) =
      "- ".toList ++ vol ++ ":/app/data".toList := by
    have hassoc : "      - ".toList ++ vol ++ ":/app/data".toList =
        "      ".toList ++ ('-' :: ([' '] ++ vol ++ ":/app/dat".toList) ++ ['a']) := by simp
    rw [hassoc, trimSpace_append (forall_mem_literal (by decide)), trimSpace_cons_concat (by decide) (by decide)]
    simp
  have hne : "- ".toList ++ vol ++ ":/app/data".toList ≠ "volumes:".toList := fun h =>
    absurd (Option.some.inj (congrArg List.head? h)) (show ¬ '-' = 'v' by decide)
  have hdash : hasPrefix ("- ".toList ++ vol ++ ":/app/data".toList) ['-'] = true := rfl
  have htrimmed := (congrArg trimSpace hstrip).trans htrim
  rw [scanLine_indented rfl (htrimmed ▸ List.cons_ne_nil _ _), htrimmed, hasServiceMount_volumeLine,
    serviceLine]
  simp only [hservices, hvolumes, Bool.not_true, Bool.false_eq_true, if_false, if_neg hne, hdash, if_true,
    mountsVolume_entry hvol, Bool.or_true]

/-- The top-level `volumes:` line. -/
theorem inTopVolumes_scanLine : (scanLine vol s "volumes:".toList).inTopVolumes = true := by
  have htrim : trimSpace (stripYAMLComment false false "volumes:".toList) = "volumes:".toList := by
    decide
  have hhead : (stripYAMLComment false false "volumes:".toList).head? = some 'v' := by decide
  unfold scanLine
  dsimp only
  rw [htrim, hhead, if_neg (by decide), if_pos (by decide), topLevel, if_neg (by decide),
    if_pos (by decide)]

/-- The declaration of the volume below it. -/
theorem hasTopLevelVolume_scanLine (hvol : WellFormed vol) (hne : vol ≠ []) (htop : s.inTopVolumes = true) :
    (scanLine vol s ("  ".toList ++ vol ++ ":".toList)).hasTopLevelVolume = true := by
  have hstrip : stripYAMLComment false false ("  ".toList ++ vol ++ ":".toList) =
      "  ".toList ++ vol ++ ":".toList := stripYAMLComment_of_not_mem
    (List.not_mem_append (hvol.hash (not_mem_literal (by decide))) (not_mem_literal (by decide))) _ _
  have htrim : trimSpace ("  ".toList ++ vol ++ ":".toList) = vol ++ [':'] := by
    rw [List.append_assoc, trimSpace_append (forall_mem_literal (by decide))]
    exact trimSpace_of_forall (hvol.spaceless.append (forall_mem_literal (by decide)))
  have htrimmed := (congrArg trimSpace hstrip).trans htrim
  have hsuffix : hasSuffix (vol ++ [':']) [':'] = true :=
    List.isSuffixOf_iff_suffix.2 (List.suffix_append _ _)
  have hdash : hasPrefix (vol ++ [':']) ['-'] = false := by
    obtain ⟨c, rest, rfl⟩ := List.exists_cons_of_ne_nil hne
    have hc : c ≠ '-' := fun heq => hvol.2 (by rw [heq]; rfl)
    rw [← Bool.not_eq_true, hasPrefix_iff]
    exact fun h => hc (List.cons_prefix_cons.1 h).1.symm
  have hname : trimQuotes (trimSuffix (vol ++ [':']) [':']) = vol := by
    have hdrop : trimSuffix (vol ++ [':']) [':'] = vol := by
      rw [trimSuffix, trimPrefix, List.reverse_append, dropPrefix?_append, Option.getD_some,
        List.reverse_reverse]
    rw [hdrop]
    have hquotes : trimQuotes (vol ++ []) = vol ++ [] := hvol.quotes nofun
    simpa using hquotes
  rw [scanLine_indented rfl (htrimmed ▸ by simp), htrimmed, volumeLine, inTopVolumes_serviceLine, htop, hsuffix,
    hdash, hname]
  simp

theorem inServices_scanLine : (scanLine vol s "services:".toList).inServices = true := by
  have htrim : trimSpace (stripYAMLComment false false "services:".toList) = "services:".toList := by
    decide
  have hhead : (stripYAMLComment false false "services:".toList).head? = some 's' := by decide
  unfold scanLine
  dsimp only
  rw [htrim, hhead, if_neg (by decide), if_pos (by decide), topLevel, if_pos (by decide)]

/-- A service with the volume in its list, and the volume below the top-level `volumes:`. -/
theorem found_sections (hvol : WellFormed vol) (hne : vol ≠ []) {pre : List Text}
    (hpre : ∀ line ∈ pre, line.head? = some ' ') (mid rest : List Text) :
    let s := ("services:".toList :: (pre ++ "    volumes:".toList ::
      ("      - ".toList ++ vol ++ ":/app/data".toList) :: (mid ++ "volumes:".toList ::
        ("  ".toList ++ vol ++ ":".toList) :: rest))).foldl (scanLine vol) {}
    s.hasServiceMount = true ∧ s.hasTopLevelVolume = true := by
  dsimp only
  simp only [List.foldl_cons, List.foldl_append]
  have hservices : (pre.foldl (scanLine vol) (scanLine vol {} "services:".toList)).inServices = true :=
    (inServices_foldl_scanLine hpre).trans inServices_scanLine
  have hvolumes := @inServiceVolumes_scanLine vol _ hservices
  have hmount := (@found_foldl_scanLine vol _ mid).1 (hasServiceMount_scanLine hvol hvolumes.1 hvolumes.2)
  exact ⟨found_foldl_scanLine.1 (found_scanLine.1 (found_scanLine.1 hmount)),
    found_foldl_scanLine.2 (hasTopLevelVolume_scanLine hvol hne inTopVolumes_scanLine)⟩

end

/-- The rendered compose file declares the volume. -/
theorem hasDeclaredComposeDataVolume_composeLines (hvolume : WellFormed volName) (hne : volName ≠ [])
    (hlines : ∀ line ∈ composeLines image port cName volName netName envLabel, '\n' ∉ line) :
    hasDeclaredComposeDataVolume (joinLines (composeLines image port cName volName netName envLabel)) volName =
      true := by
  have hpre : ∀ line ∈ (composeLines image port cName volName netName envLabel).tail.take 18,
      line.head? = some ' ' := by
    simp only [composeLines, List.tail_cons, List.take_succ_cons, List.take_zero, List.forall_mem_cons,
      List.not_mem_nil, false_imp_iff, implies_true, and_true]
    and_intros <;> first | decide +kernel | simp
  have hfound := found_sections hvolume hne hpre
    (((composeLines image port cName volName netName envLabel).drop 21).take 10)
    ((composeLines image port cName volName netName envLabel).drop 33)
  have hblank : trimSpace (joinLines (composeLines image port cName volName netName envLabel)) ≠ [] := by
    refine trimSpace_ne_nil (c := 's') ?_ (by decide)
    exact List.mem_of_mem_head? rfl
  unfold hasDeclaredComposeDataVolume
  rw [if_neg (by simp [hblank, hne])]
  unfold lines joinLines
  rw [List.splitOn_intercalate _ hlines (List.cons_ne_nil _ _), Bool.and_eq_true]
  exact hfound

end

/-! ### The written files -/

section
variable (lower : Text → Text) (l : LifecycleManager) (cfg : InstallConfig) (dir : Dir) (w : Writes)

/-- The readers agree with what was written. -/
structure ReadsBack (after : Dir) : Prop where
  container : (if detectContainerName after = [] then containerName else detectContainerName after) =
    cName l dir cfg
  volume : (if detectDataVolume after = [] then namedDataVolume else detectDataVolume after) =
    volName l dir cfg
  image : configuredImage after = cfg.image
  port : statusPort after = cfg.port
  declared : ∃ content, after.compose = .text content ∧
    hasDeclaredComposeDataVolume content (volName l dir cfg) = true

/-- An `.env` that is kept has the configured port already. -/
def PortAgrees : Prop := dir.env ≠ .absent → statusPort dir = cfg.port

/-- The names in use are well-formed, the other values stay on their line, and `.env` can be
read and written. -/
structure Undisturbed : Prop where
  container : WellFormed (cName l dir cfg)
  volume : WellFormed (volName l dir cfg)
  network : WellFormed cfg.networkName
  label : '\n' ∉ cfg.environment
  feedbackURL : '\n' ∉ cfg.feedbackURL
  feedbackKey : '\n' ∉ cfg.feedbackKey
  readable : dir.env ≠ .unreadable
  writable : w.envFails = none

end

section
variable {lower : Text → Text} {l : LifecycleManager} {cfg : InstallConfig} {dir : Dir} {w : Writes}

theorem cName_ne_nil : cName l dir cfg ≠ [] := chooseName_ne_nil (targetContainerName_ne_nil l)

theorem volName_ne_nil : volName l dir cfg ≠ [] := chooseName_ne_nil (targetDataVolume_ne_nil l)

theorem wellFormed_netName (hname : WellFormed (cName l dir cfg)) (hnetwork : WellFormed cfg.networkName) :
    WellFormed (netName l dir cfg) := by
  unfold netName
  split_ifs
  · exact hnetwork
  · refine ⟨List.forall_mem_append.2 ⟨hname.1, by decide⟩, ?_⟩
    rw [List.head?_append_of_ne_nil _ cName_ne_nil]
    exact hname.2
  · decide

theorem newline_envLabel (lower : Text → Text) (h : '\n' ∉ cfg.environment) :
    '\n' ∉ envLabel l dir cfg lower := by
  unfold envLabel
  split_ifs
  · exact h
  · exact not_mem_literal (by decide)
  · exact not_mem_literal (by decide)

/-- The lines of the new `.env`. -/
def envLines (lower : Text → Text) (l : LifecycleManager) (cfg : InstallConfig) (dir : Dir) : List Text :=
  match dir.env.read with
  | some old =>
    mergedLines cfg.image (cName l dir cfg) (volName l dir cfg) (envLabel l dir cfg lower) (lines old)
  | none => freshLines cfg (cName l dir cfg) (volName l dir cfg) (envLabel l dir cfg lower)

theorem writeRuntimeFiles_of_undisturbed (h : Undisturbed l cfg dir w)
    (hok : (writeRuntimeFiles lower l cfg dir w).1 = none) :
    (writeRuntimeFiles lower l cfg dir w).2 =
      { dir with
        compose := .text (composeContent lower l cfg dir)
        env := .text (joinLines (envLines lower l cfg dir)) } := by
  have hreadable := h.readable
  unfold writeRuntimeFiles envLines at *
  cases hmkdir : w.mkdirFails <;> cases hcompose : w.composeFails <;> cases henv : dir.env <;>
    simp_all [h.writable, FileState.read, written, envContent]

theorem newline_envLines (lower : Text → Text) (h : Undisturbed l cfg dir w)
    (hport : 0 < cfg.port.1) (himage : Spaceless cfg.image) :
    ∀ line ∈ envLines lower l cfg dir, '\n' ∉ line := by
  have hkeyed : ∀ key ∈ updatedKeys, '\n' ∉ key ++ updatedValue cfg.image (cName l dir cfg) (volName l dir cfg)
      (envLabel l dir cfg lower) key := by
    intro key hkey
    refine List.not_mem_append (updatedKeys_spaceless key hkey).newline ?_
    unfold updatedValue
    split_ifs
    · exact himage.newline
    · exact h.container.spaceless.newline
    · exact h.volume.spaceless.newline
    · exact newline_envLabel lower h.label
  have hwanted : ∀ (wanted : Prop) [Decidable wanted] (line : Text), '\n' ∉ line →
      ∀ line' ∈ if wanted then [line] else [], '\n' ∉ line' := by
    intro wanted _ line hline
    split_ifs
    · exact List.forall_mem_singleton.2 hline
    · exact nofun
  unfold envLines
  split
  · exact forall_mergedLines (fun line hline => not_mem_of_mem_splitOn hline) hkeyed
  · unfold freshLines
    refine List.forall_mem_append.2 ⟨List.forall_mem_append.2 ⟨List.forall_mem_append.2
      ⟨List.forall_mem_append.2 ⟨?_, hwanted _ _ (hkeyed containerNameKey (by simp [updatedKeys]))⟩,
        hwanted _ _ (hkeyed dataVolumeKey (by simp [updatedKeys]))⟩,
        hwanted _ _ (hkeyed environmentKey (by simp [updatedKeys]))⟩, by decide⟩
    simp only [List.forall_mem_cons, List.not_mem_nil, false_imp_iff, implies_true, and_true]
    refine ⟨List.not_mem_append (not_mem_literal (by decide)) (spaceless_itoa hport).newline,
      not_mem_literal (by decide), List.not_mem_append (not_mem_literal (by decide)) ?_,
      List.not_mem_append (not_mem_literal (by decide)) h.feedbackKey,
      hkeyed imageKey (by simp [updatedKeys])⟩
    split_ifs
    · exact not_mem_literal (by decide)
    · exact h.feedbackURL

/-- A key of the new `.env`. -/
theorem keyed_envLines {key value : Text} {needed : Prop} (hkey : key ∈ updatedKeys)
    (hvalue : Spaceless value) (heq : updatedValue cfg.image (cName l dir cfg) (volName l dir cfg)
      (envLabel l dir cfg lower) key = value)
    (hneeded : needed → (imageKey = key ∧ cfg.image ≠ []) ∨
      (containerNameKey = key ∧ cName l dir cfg ≠ containerName) ∨
      (dataVolumeKey = key ∧ volName l dir cfg ≠ namedDataVolume)) :
    Keyed key value needed (envLines lower l cfg dir) := by
  have hspace := updatedKeys_spaceless key hkey
  unfold envLines
  split
  · refine (keyed_mergedLines hkey hspace hvalue heq).mono fun h => (hneeded h).imp_right (Or.imp ?_ ?_)
    · exact fun ⟨hsame, hne⟩ => ⟨hsame, cName_ne_nil, hne⟩
    · exact fun ⟨hsame, hne⟩ => ⟨hsame, volName_ne_nil, hne⟩
  · exact (keyed_freshLines hkey hspace hvalue heq).mono fun h => (hneeded h).imp_left And.left

theorem envLines_ne_nil : envLines lower l cfg dir ≠ [] := by
  unfold envLines
  split
  · refine List.append_ne_nil_of_left_ne_nil (List.append_ne_nil_of_left_ne_nil
      (List.append_ne_nil_of_left_ne_nil (List.append_ne_nil_of_left_ne_nil ?_ _) _) _) _
    exact mt List.map_eq_nil_iff.1 (List.splitOn_ne_nil _ _)
  · exact List.append_ne_nil_of_right_ne_nil _ (List.cons_ne_nil _ _)

theorem foldl_portLine_envLines (hport : 0 < cfg.port.1) (hreadable : dir.env ≠ .unreadable) :
    (envLines lower l cfg dir).foldl portLine defaultPort = cfg.port.1 ↔ PortAgrees cfg dir := by
  unfold envLines PortAgrees statusPort
  cases henv : dir.env with
  | absent => simp [FileState.read, foldl_portLine_freshLines hport]
  | unreadable => exact absurd henv hreadable
  | text old => simp [FileState.read, foldl_portLine_mergedLines]

/-- The names and the image of the new `.env`; a default that is not there is found elsewhere. -/
theorem values_envLines (lower : Text → Text) (h : Undisturbed l cfg dir w)
    (hport : 0 < cfg.port.1) (himage : Spaceless cfg.image) :
    let content := joinLines (envLines lower l cfg dir)
    (firstValue containerNameKey content = some (cName l dir cfg) ∨
      cName l dir cfg = containerName ∧ firstValue containerNameKey content = none) ∧
    (firstValue dataVolumeKey content = some (volName l dir cfg) ∨
      volName l dir cfg = namedDataVolume ∧ firstValue dataVolumeKey content = none) ∧
    ((lines content).findSome? (remainder imageKey)).getD [] = cfg.image := by
  have henv := newline_envLines lower h hport himage
  have hsplit : lines (joinLines (envLines lower l cfg dir)) = envLines lower l cfg dir :=
    List.splitOn_intercalate _ henv envLines_ne_nil
  refine ⟨?_, ?_, ?_⟩
  · have hkeyed : Keyed containerNameKey (cName l dir cfg) (cName l dir cfg ≠ containerName)
        (envLines lower l cfg dir) := keyed_envLines (by simp [updatedKeys])
      h.container.spaceless rfl fun hne => .inr (.inl ⟨rfl, hne⟩)
    rw [← not_not (a := cName l dir cfg = containerName)]
    exact hkeyed.firstValue h.container.spaceless cName_ne_nil henv envLines_ne_nil
  · have hkeyed : Keyed dataVolumeKey (volName l dir cfg) (volName l dir cfg ≠ namedDataVolume)
        (envLines lower l cfg dir) := keyed_envLines (by simp [updatedKeys])
      h.volume.spaceless rfl fun hne => .inr (.inr ⟨rfl, hne⟩)
    rw [← not_not (a := volName l dir cfg = namedDataVolume)]
    exact hkeyed.firstValue h.volume.spaceless volName_ne_nil henv envLines_ne_nil
  · have hkeyed : Keyed imageKey cfg.image (cfg.image ≠ []) (envLines lower l cfg dir) :=
      keyed_envLines (by simp [updatedKeys]) himage rfl fun hne => .inl ⟨rfl, hne⟩
    rw [hsplit]
    rcases hkeyed.findSome? with hfound | ⟨hempty, hnone⟩
    · rw [hfound]
      rfl
    · rw [hnone, not_not.1 hempty]
      rfl

end

def freshDir : Dir where
  path := "/opt/altr".toList

def plainConfig : InstallConfig where
  image := "altr-stream".toList
  port := ⟨8000, defaultPort_bounds⟩
  containerName := "altr-stream".toList
  dataVolume := "altr_stream_data".toList

end AltrStream.Installer
