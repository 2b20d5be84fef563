import AltrStream.Installer.RuntimeFiles

/-! # Lines that start with a key

What the writers do to the lines of `.env`, seen through the readers: every line with an
updated key has the new value, and no other line gets that key.
-/
namespace AltrStream.Installer
open Foundations Go

/-- What follows the key on a line, if the line has it. -/
def remainder (key line : Text) : Option Text := (trimSpace line).dropPrefix? key

theorem valueOf?_eq (key line : Text) : valueOf? key line = (remainder key line).map trimSpace := rfl

/-- No line can have both keys. -/
def Apart (key key' : Text) : Prop := ¬ key <+: key' ∧ ¬ key' <+: key

instance (key key' : Text) : Decidable (Apart key key') := inferInstanceAs (Decidable (_ ∧ _))

def Spaceless (s : Text) : Prop := ∀ c ∈ s, isSpace c = false

instance (s : Text) : Decidable (Spaceless s) := inferInstanceAs (Decidable (∀ _ ∈ _, _))

theorem Spaceless.append {s t : Text} (hs : Spaceless s) (ht : Spaceless t) : Spaceless (s ++ t) :=
  List.forall_mem_append.2 ⟨hs, ht⟩

theorem Spaceless.newline {s : Text} (h : Spaceless s) : '\n' ∉ s := fun hmem =>
  absurd (h _ hmem) (by decide)

section
variable {key key' value line : Text}

theorem remainder_eq_none : remainder key line = none ↔ ¬ key <+: trimSpace line := by
  rw [← Option.not_isSome_iff_eq_none, Option.isSome_iff_exists]
  refine not_congr ⟨?_, ?_⟩
  · rintro ⟨rest, h⟩
    exact ⟨rest, (dropPrefix?_eq_some.1 h).symm⟩
  · rintro ⟨rest, h⟩
    exact ⟨rest, dropPrefix?_eq_some.2 h.symm⟩

theorem remainder_of_prefix (h : key <+: trimSpace line) (hapart : Apart key key') :
    remainder key' line = none := by
  rw [remainder_eq_none]
  intro h'
  rcases List.prefix_or_prefix_of_prefix h h' with hinit | hinit
  · exact hapart.1 hinit
  · exact hapart.2 hinit

/-- A line that starts with a character other than the key's. -/
theorem remainder_of_head {c k : Char} (hline : (line.dropWhile isSpace).head? = some c)
    (hkey : key.head? = some k) (hne : c ≠ k) : remainder key line = none := by
  rw [remainder_eq_none]
  intro h
  obtain ⟨rest, hrest⟩ := h.trans (isPrefix_trimSpace line)
  rw [← hrest, List.head?_append, hkey, Option.some_or, Option.some.injEq] at hline
  exact hne hline.symm

theorem remainder_append (hkey : Spaceless key) (hvalue : Spaceless value) :
    remainder key (key ++ value) = some value := by
  rw [remainder, trimSpace_of_forall (hkey.append hvalue), dropPrefix?_append]

/-- A line with another key. -/
theorem remainder_append_of_apart (hkey : key.dropWhile isSpace = key) (hne : key ≠ [])
    (hapart : Apart key key') : remainder key' (key ++ value) = none := by
  rw [remainder_eq_none]
  intro h
  have hdrop : (key ++ value).dropWhile isSpace = key ++ value := by
    rw [List.dropWhile_append, hkey, List.isEmpty_eq_false_iff.2 hne]
    rfl
  have h' := hdrop ▸ h.trans (isPrefix_trimSpace _)
  rcases List.prefix_or_prefix_of_prefix (List.prefix_append key value) h' with hinit | hinit
  · exact hapart.1 hinit
  · exact hapart.2 hinit

end

/-! ### The first value -/

/-- Every line with the key has the value, and there is one if it is needed. -/
structure Keyed (key value : Text) (needed : Prop) (ls : List Text) : Prop where
  same : ∀ v ∈ ls.filterMap (remainder key), v = value
  present : needed → ls.filterMap (remainder key) ≠ []

section
variable {key value : Text} {needed : Prop} {ls : List Text}

theorem Keyed.firstValue (h : Keyed key value needed ls) (hvalue : Spaceless value) (hne : value ≠ [])
    (hlines : ∀ line ∈ ls, '\n' ∉ line) (hls : ls ≠ []) :
    firstValue key (joinLines ls) = some value ∨
      ¬ needed ∧ firstValue key (joinLines ls) = none := by
  have hmap : (valueOf? key : Text → Option Text) = fun line => (remainder key line).map trimSpace := rfl
  unfold Installer.firstValue lines joinLines
  rw [List.splitOn_intercalate _ hlines hls, hmap, ← List.map_filterMap]
  cases hvalues : ls.filterMap (remainder key) with
  | nil => exact .inr ⟨fun hneeded => h.present hneeded hvalues, rfl⟩
  | cons v rest =>
    have hv : v = value := h.same v (hvalues ▸ List.mem_cons_self)
    left
    rw [hv, List.map_cons, trimSpace_of_forall hvalue, List.find?_cons_of_pos (by simpa using hne)]

theorem Keyed.findSome? (h : Keyed key value needed ls) :
    ls.findSome? (remainder key) = some value ∨ ¬ needed ∧ ls.findSome? (remainder key) = none := by
  rw [← List.head?_filterMap]
  cases hvalues : ls.filterMap (remainder key) with
  | nil => exact .inr ⟨fun hneeded => h.present hneeded hvalues, rfl⟩
  | cons v rest => exact .inl (congrArg some (h.same v (hvalues ▸ List.mem_cons_self)))

theorem Keyed.append {ls' : List Text} {needed' : Prop} (h : Keyed key value needed ls)
    (h' : Keyed key value needed' ls') : Keyed key value (needed ∨ needed') (ls ++ ls') where
  same := by
    rw [List.filterMap_append]
    exact List.forall_mem_append.2 ⟨h.same, h'.same⟩
  present hneeded := by
    rw [List.filterMap_append, Ne, List.append_eq_nil_iff, not_and_or]
    exact hneeded.imp h.present h'.present

theorem Keyed.mono {needed' : Prop} (h : Keyed key value needed ls) (himp : needed' → needed) :
    Keyed key value needed' ls := ⟨h.same, fun h' => h.present (himp h')⟩

/-- Lines without the key. -/
theorem keyed_of_none (h : ∀ line ∈ ls, remainder key line = none) : Keyed key value False ls where
  same := by
    rw [List.filterMap_eq_nil_iff.2 h]
    exact nofun
  present := False.elim

/-- The line is there if it is wanted. -/
theorem keyed_ite (hkey : Spaceless key) (hvalue : Spaceless value) (wanted : Prop) [Decidable wanted] :
    Keyed key value wanted (if wanted then [key ++ value] else []) := by
  by_cases h : wanted <;> constructor <;>
    simp [h, remainder_append hkey hvalue]

theorem keyed_ite_apart {key' value' : Text} (hkey' : key'.dropWhile isSpace = key') (hne : key' ≠ [])
    (hapart : Apart key' key) (wanted : Prop) [Decidable wanted] :
    Keyed key value False (if wanted then [key' ++ value'] else []) := by
  refine keyed_of_none fun line hline => ?_
  split_ifs at hline
  · rw [List.mem_singleton.1 hline]
    exact remainder_append_of_apart hkey' hne hapart
  · cases hline

end

/-! ### Updated lines -/

/-- The four keys that are updated. -/
def updatedKeys : List Text := [imageKey, containerNameKey, dataVolumeKey, environmentKey]

theorem updatedKeys_apart : ∀ key ∈ updatedKeys, ∀ key' ∈ portKey :: updatedKeys, key ≠ key' →
    Apart key key' := by
  unfold updatedKeys portKey imageKey containerNameKey dataVolumeKey environmentKey
  -- The literals are spelled out first: to decode them is what would take long.
  repeat rw [String.toList_ofList]
  decide

theorem portKey_not_mem : portKey ∉ updatedKeys := by
  unfold updatedKeys portKey imageKey containerNameKey dataVolumeKey environmentKey
  repeat rw [String.toList_ofList]
  decide

theorem updatedKeys_spaceless : ∀ key ∈ updatedKeys, Spaceless key := by
  unfold updatedKeys imageKey containerNameKey dataVolumeKey environmentKey
  repeat rw [String.toList_ofList]
  decide

theorem updatedKeys_start : ∀ key ∈ updatedKeys, key.dropWhile isSpace = key ∧ key ≠ [] := by
  unfold updatedKeys imageKey containerNameKey dataVolumeKey environmentKey
  repeat rw [String.toList_ofList]
  decide

section
variable {image cName volName envLabel line key : Text}

/-- The value of an updated key. -/
def updatedValue (image cName volName envLabel key : Text) : Text :=
  if key = imageKey then image
  else if key = containerNameKey then cName
  else if key = dataVolumeKey then volName
  else envLabel

theorem updateLine_cases :
    (∃ key ∈ updatedKeys, key <+: trimSpace line ∧ updateLine image cName volName envLabel line =
      key ++ updatedValue image cName volName envLabel key) ∨
    (∀ key ∈ updatedKeys, ¬ key <+: trimSpace line) ∧
      updateLine image cName volName envLabel line = line := by
  simp only [updateLine, hasPrefix, List.isPrefixOf_iff_prefix]
  split_ifs with himage hname hvolume hlabel
  · exact .inl ⟨imageKey, by simp [updatedKeys], himage, rfl⟩
  · exact .inl ⟨containerNameKey, by simp [updatedKeys], hname, rfl⟩
  · exact .inl ⟨dataVolumeKey, by simp [updatedKeys], hvolume, rfl⟩
  · exact .inl ⟨environmentKey, by simp [updatedKeys], hlabel, rfl⟩
  · exact .inr ⟨by simp [updatedKeys, himage, hname, hvolume, hlabel], rfl⟩

/-- A line whose key is not the updated one keeps what follows. -/
theorem remainder_updateLine_other (hkey : key ∈ portKey :: updatedKeys)
    (hnot : key ∈ updatedKeys → ¬ key <+: trimSpace line) :
    remainder key (updateLine image cName volName envLabel line) = remainder key line := by
  rcases @updateLine_cases image cName volName envLabel line with
    ⟨key', hkey', hinit, heq⟩ | ⟨-, heq⟩
  · have hne : key' ≠ key := by
      rintro rfl
      exact hnot hkey' hinit
    have hapart := updatedKeys_apart key' hkey' key hkey hne
    have hstart := updatedKeys_start key' hkey'
    rw [heq, remainder_append_of_apart hstart.1 hstart.2 hapart, remainder_of_prefix hinit hapart]
  · rw [heq]

theorem updateLine_of_starts (hkey : key ∈ updatedKeys) (hinit : key <+: trimSpace line) :
    updateLine image cName volName envLabel line =
      key ++ updatedValue image cName volName envLabel key := by
  rcases @updateLine_cases image cName volName envLabel line with ⟨key', hkey', hinit', heq⟩ | ⟨hnone, -⟩
  · obtain rfl : key' = key := by
      by_contra hne
      have hapart := updatedKeys_apart key' hkey' key (List.mem_cons_of_mem _ hkey) hne
      exact (List.prefix_or_prefix_of_prefix hinit' hinit).elim hapart.1 hapart.2
    exact heq
  · exact absurd hinit (hnone key hkey)

/-- The updated key has its value on every line that has the key. -/
theorem keyed_updateLine {value : Text} (hkey : key ∈ updatedKeys) (hspace : Spaceless key)
    (hvalue : Spaceless value) (heq : updatedValue image cName volName envLabel key = value)
    (old : List Text) : Keyed key value (∃ line ∈ old, key <+: trimSpace line)
      (old.map (updateLine image cName volName envLabel)) := by
  have hline : ∀ line, remainder key (updateLine image cName volName envLabel line) =
      if key <+: trimSpace line then some value else none := by
    intro line
    split_ifs with hinit
    · rw [updateLine_of_starts hkey hinit, heq, remainder_append hspace hvalue]
    · rw [remainder_updateLine_other (List.mem_cons_of_mem _ hkey) fun _ => hinit,
        remainder_eq_none.2 hinit]
  constructor
  · intro v hv
    rw [List.filterMap_map, List.mem_filterMap] at hv
    obtain ⟨line, -, hv⟩ := hv
    rw [Function.comp_apply, hline] at hv
    split_ifs at hv
    exact (Option.some.inj hv).symm
  · rintro ⟨line, hmem, hinit⟩
    refine List.ne_nil_of_mem (List.mem_filterMap.2 ⟨_, List.mem_map_of_mem hmem, ?_⟩ : value ∈ _)
    rw [hline, if_pos hinit]

theorem any_updates (hkey : key ∈ updatedKeys) (old : List Text) :
    old.any (updates key) = true ↔ ∃ line ∈ old, key <+: trimSpace line := by
  rw [List.any_eq_true]
  refine exists_congr fun line => and_congr_right fun _ => ?_
  rw [updates, decide_eq_true_iff]
  constructor
  · intro h
    exact hasPrefix_iff.1 (List.find?_some h)
  · intro h
    obtain ⟨key', hfind⟩ := Option.isSome_iff_exists.1 (List.find?_isSome.2
      ⟨key, hkey, hasPrefix_iff.2 h⟩)
    have hinit := hasPrefix_iff.1 (List.find?_some hfind)
    have hsame : key' = key := by
      by_contra hne
      have hapart := updatedKeys_apart key' (List.mem_of_find?_eq_some hfind) key
        (List.mem_cons_of_mem _ hkey) hne
      exact (List.prefix_or_prefix_of_prefix hinit h).elim hapart.1 hapart.2
    exact hsame ▸ hfind

/-- The line that is added for a key, seen by the reader of a key. -/
theorem keyed_addedLine {value key' value' : Text} {old : List Text} {wanted : Bool}
    (hkey : key ∈ updatedKeys) (hkey' : key' ∈ updatedKeys) (hspace : Spaceless key)
    (hvalue : Spaceless value) (hsame : key' = key → value' = value) :
    Keyed key value (key' = key ∧ (¬ ∃ line ∈ old, key <+: trimSpace line) ∧ wanted = true)
      (addedLine old key' value' wanted) := by
  unfold addedLine
  by_cases h : key' = key
  · subst h
    rw [hsame rfl]
    refine (keyed_ite hspace hvalue _).mono ?_
    rintro ⟨-, hnone, hwanted⟩
    rw [← any_updates hkey, Bool.not_eq_true] at hnone
    simp [hnone, hwanted]
  · have hstart := updatedKeys_start key' hkey'
    exact (keyed_ite_apart hstart.1 hstart.2 (updatedKeys_apart key' hkey' key
      (List.mem_cons_of_mem _ hkey) h) _).mono fun hsame' => (h hsame'.1).elim

/-- After the update of an existing `.env` a key has its new value, where that is not the default. -/
theorem keyed_mergedLines {value : Text} {old : List Text} (hkey : key ∈ updatedKeys)
    (hspace : Spaceless key) (hvalue : Spaceless value)
    (heq : updatedValue image cName volName envLabel key = value) :
    Keyed key value
      ((imageKey = key ∧ image ≠ []) ∨ (containerNameKey = key ∧ cName ≠ [] ∧ cName ≠ containerName) ∨
        (dataVolumeKey = key ∧ volName ≠ [] ∧ volName ≠ namedDataVolume))
      (mergedLines image cName volName envLabel old) := by
  have hadded : ∀ key' value' wanted, key' ∈ updatedKeys →
      updatedValue image cName volName envLabel key' = value' → Keyed key value
        (key' = key ∧ (¬ ∃ line ∈ old, key <+: trimSpace line) ∧ wanted = true)
        (addedLine old key' value' wanted) := fun key' value' wanted hkey' hvalue' =>
    keyed_addedLine hkey hkey' hspace hvalue fun hsame => hvalue'.symm.trans (hsame ▸ heq)
  have hall := ((((keyed_updateLine hkey hspace hvalue heq old).append
    (hadded imageKey image (image ≠ []) (by simp [updatedKeys]) rfl)).append
    (hadded containerNameKey cName (cName ≠ [] ∧ cName ≠ containerName) (by simp [updatedKeys]) rfl)).append
    (hadded dataVolumeKey volName (volName ≠ [] ∧ volName ≠ namedDataVolume) (by simp [updatedKeys]) rfl)).append
    (hadded environmentKey envLabel (envLabel ≠ "production".toList) (by simp [updatedKeys]) rfl)
  refine hall.mono ?_
  by_cases hexists : ∃ line ∈ old, key <+: trimSpace line
  · exact fun _ => .inl (.inl (.inl (.inl hexists)))
  · rintro (⟨hsame, hne⟩ | ⟨hsame, hne⟩ | ⟨hsame, hne⟩)
    · exact .inl (.inl (.inl (.inr ⟨hsame, hexists, decide_eq_true hne⟩)))
    · exact .inl (.inl (.inr ⟨hsame, hexists, decide_eq_true hne⟩))
    · exact .inl (.inr ⟨hsame, hexists, decide_eq_true hne⟩)

end

section
variable {image cName volName envLabel : Text}

/-- A property of the old lines and of the updated ones holds of every line. -/
theorem forall_mergedLines {p : Text → Prop} {old : List Text} (hold : ∀ line ∈ old, p line)
    (hkeys : ∀ key ∈ updatedKeys, p (key ++ updatedValue image cName volName envLabel key)) :
    ∀ line ∈ mergedLines image cName volName envLabel old, p line := by
  have hadded : ∀ key value wanted, key ∈ updatedKeys →
      updatedValue image cName volName envLabel key = value →
      ∀ line ∈ addedLine old key value wanted, p line := by
    rintro key _ wanted hkey rfl line hline
    unfold addedLine at hline
    split_ifs at hline
    · exact List.mem_singleton.1 hline ▸ hkeys key hkey
    · cases hline
  unfold mergedLines
  simp only [List.forall_mem_append, List.forall_mem_map]
  refine ⟨⟨⟨⟨fun line hline => ?_, hadded _ _ _ (by simp [updatedKeys]) rfl⟩,
    hadded _ _ _ (by simp [updatedKeys]) rfl⟩, hadded _ _ _ (by simp [updatedKeys]) rfl⟩,
    hadded _ _ _ (by simp [updatedKeys]) rfl⟩
  rcases @updateLine_cases image cName volName envLabel line with ⟨key, hkey, -, heq⟩ | ⟨-, heq⟩
  · rw [heq]
    exact hkeys key hkey
  · rw [heq]
    exact hold line hline

end

/-! ### A new `.env` -/

theorem remainder_freshStart {key : Text} (hkey : key ∈ updatedKeys) (port fbURL feedbackKey : Text) :
    ∀ line ∈ [portKey ++ port, "ALTR_STREAM_DEBUG=false".toList,
      "ALTR_STREAM_FEEDBACK_SERVICE_URL=".toList ++ fbURL, "ALTR_FEEDBACK_API_KEY=".toList ++ feedbackKey],
      remainder key line = none := by
  have hapart : ∀ key ∈ updatedKeys, ∀ start ∈ [portKey, "ALTR_STREAM_DEBUG=false".toList,
      "ALTR_STREAM_FEEDBACK_SERVICE_URL=".toList, "ALTR_FEEDBACK_API_KEY=".toList],
      Apart start key ∧ start.dropWhile isSpace = start ∧ start ≠ [] := by
    unfold updatedKeys portKey imageKey containerNameKey dataVolumeKey environmentKey
    repeat rw [String.toList_ofList]
    decide
  have hline : ∀ start ∈ [portKey, "ALTR_STREAM_DEBUG=false".toList,
      "ALTR_STREAM_FEEDBACK_SERVICE_URL=".toList, "ALTR_FEEDBACK_API_KEY=".toList],
      ∀ rest, remainder key (start ++ rest) = none := fun start hstart rest =>
    have h := hapart key hkey start hstart
    remainder_append_of_apart h.2.1 h.2.2 h.1
  simp only [List.forall_mem_cons, List.not_mem_nil, false_imp_iff, implies_true, and_true] at hline ⊢
  exact ⟨hline.1 _, List.append_nil "ALTR_STREAM_DEBUG=false".toList ▸ hline.2.1 [], hline.2.2.1 _,
    hline.2.2.2 _⟩

/-- In a new `.env` a key has its value, where that is not the default. -/
theorem keyed_freshLines {cfg : InstallConfig} {cName volName envLabel key value : Text}
    (hkey : key ∈ updatedKeys) (hspace : Spaceless key) (hvalue : Spaceless value)
    (heq : updatedValue cfg.image cName volName envLabel key = value) :
    Keyed key value
      (imageKey = key ∨ (containerNameKey = key ∧ cName ≠ containerName) ∨
        (dataVolumeKey = key ∧ volName ≠ namedDataVolume))
      (freshLines cfg cName volName envLabel) := by
  have hadded : ∀ key' value' (wanted : Prop) [Decidable wanted], key' ∈ updatedKeys →
      updatedValue cfg.image cName volName envLabel key' = value' → Keyed key value (key' = key ∧ wanted)
        (if wanted then [key' ++ value'] else []) := by
    intro key' value' wanted _ hkey' hvalue'
    by_cases h : key' = key
    · subst h
      rw [← hvalue', heq]
      exact (keyed_ite hspace hvalue wanted).mono And.right
    · have hstart := updatedKeys_start key' hkey'
      exact (keyed_ite_apart hstart.1 hstart.2 (updatedKeys_apart key' hkey' key
        (List.mem_cons_of_mem _ hkey) h) wanted).mono fun hsame => (h hsame.1).elim
  have hend : Keyed key value False [[]] := keyed_of_none (List.forall_mem_singleton.2
    (remainder_eq_none.2 fun h => (updatedKeys_start key hkey).2 (List.prefix_nil.1 h)))
  have hall := (((((keyed_of_none (remainder_freshStart hkey (itoa cfg.port)
    (if cfg.feedbackURL = [] then "https://altr-feedback.onrender.com".toList else cfg.feedbackURL)
    cfg.feedbackKey)).append
    (hadded imageKey cfg.image True (by simp [updatedKeys]) rfl)).append
    (hadded containerNameKey cName (cName ≠ containerName) (by simp [updatedKeys]) rfl)).append
    (hadded dataVolumeKey volName (volName ≠ namedDataVolume) (by simp [updatedKeys]) rfl)).append
    (hadded environmentKey envLabel (envLabel ≠ "production".toList) (by simp [updatedKeys]) rfl)).append hend
  refine hall.mono ?_
  rintro (hsame | h | h)
  · exact .inl (.inl (.inl (.inl (.inr ⟨hsame, trivial⟩))))
  · exact .inl (.inl (.inl (.inr h)))
  · exact .inl (.inl (.inr h))

/-! ### The port -/

theorem portLine_of_none {port : ℤ} {line : Text} (h : remainder portKey line = none) :
    portLine port line = port := by
  rw [portLine, valueOf?_eq, h]
  rfl

theorem foldl_portLine_of_none {ls : List Text} (h : ∀ line ∈ ls, remainder portKey line = none) (port : ℤ) :
    ls.foldl portLine port = port := by
  induction ls generalizing port with
  | nil => rfl
  | cons line ls ih =>
    obtain ⟨hline, hls⟩ := List.forall_mem_cons.1 h
    rw [List.foldl_cons, portLine_of_none hline, ih hls]

theorem remainder_addedLine_port {old : List Text} {key value : Text} {wanted : Bool}
    (hkey : key ∈ updatedKeys) : ∀ line ∈ addedLine old key value wanted, remainder portKey line = none := by
  intro line hline
  unfold addedLine at hline
  split_ifs at hline
  · rw [List.mem_singleton.1 hline]
    have hstart := updatedKeys_start key hkey
    refine remainder_append_of_apart hstart.1 hstart.2
      (updatedKeys_apart key hkey portKey List.mem_cons_self ?_)
    rintro rfl
    exact absurd hkey portKey_not_mem
  · cases hline

/-- The update does not touch the port. -/
theorem foldl_portLine_mergedLines {image cName volName envLabel : Text} {old : List Text} (port : ℤ) :
    (mergedLines image cName volName envLabel old).foldl portLine port = old.foldl portLine port := by
  have hline : ∀ port line,
      portLine port (updateLine image cName volName envLabel line) = portLine port line := by
    intro port line
    rw [portLine, portLine, valueOf?_eq, valueOf?_eq, remainder_updateLine_other List.mem_cons_self]
    exact fun hkey => absurd hkey portKey_not_mem
  unfold mergedLines
  simp only [List.foldl_append, List.foldl_map, hline]
  rw [foldl_portLine_of_none (remainder_addedLine_port (by simp [updatedKeys])),
    foldl_portLine_of_none (remainder_addedLine_port (by simp [updatedKeys])),
    foldl_portLine_of_none (remainder_addedLine_port (by simp [updatedKeys])),
    foldl_portLine_of_none (remainder_addedLine_port (by simp [updatedKeys]))]

theorem spaceless_itoa {n : ℤ} (hpos : 0 < n) : Spaceless (itoa n) := by
  rw [itoa, if_neg (not_lt.2 hpos.le)]
  intro c hc
  have hdigit := Nat.isDigit_of_mem_toDigits (by decide) (by decide) hc
  simp only [Char.isDigit, Bool.and_eq_true, decide_eq_true_eq] at hdigit
  have hrange : 48 ≤ c.toNat ∧ c.toNat ≤ 57 := hdigit
  simp only [isSpace]
  grind

/-- The port of a new `.env`. -/
theorem foldl_portLine_freshLines {cfg : InstallConfig} {cName volName envLabel : Text}
    (hpos : 0 < cfg.port.1) (port : ℤ) :
    (freshLines cfg cName volName envLabel).foldl portLine port = cfg.port.1 := by
  have hother : ∀ start ∈ ["ALTR_STREAM_DEBUG=false".toList, "ALTR_STREAM_FEEDBACK_SERVICE_URL=".toList,
      "ALTR_FEEDBACK_API_KEY=".toList] ++ updatedKeys, ∀ rest, remainder portKey (start ++ rest) = none := by
    have hapart : ∀ start ∈ ["ALTR_STREAM_DEBUG=false".toList, "ALTR_STREAM_FEEDBACK_SERVICE_URL=".toList,
        "ALTR_FEEDBACK_API_KEY=".toList] ++ updatedKeys,
        Apart start portKey ∧ start.dropWhile isSpace = start ∧ start ≠ [] := by
      unfold updatedKeys portKey imageKey containerNameKey dataVolumeKey environmentKey
      repeat rw [String.toList_ofList]
      decide
    exact fun start hstart rest =>
      have h := hapart start hstart
      remainder_append_of_apart h.2.1 h.2.2 h.1
  have hite : ∀ (wanted : Prop) [Decidable wanted], ∀ key ∈ updatedKeys, ∀ value port,
      (if wanted then [key ++ value] else []).foldl portLine port = port := by
    intro wanted _ key hkey value port
    split_ifs
    · exact portLine_of_none (hother key (List.mem_append_right _ hkey) value)
    · rfl
  have hkey : Spaceless portKey := forall_mem_literal (by decide)
  have hfirst : portLine port (portKey ++ itoa cfg.port) = cfg.port.1 := by
    rw [portLine, valueOf?_eq, remainder_append hkey (spaceless_itoa hpos), Option.map_some,
      trimSpace_of_forall (spaceless_itoa hpos), Option.bind_some, atoi_itoa _ hpos]
    exact if_pos hpos
  unfold freshLines
  have hdebug : ∀ port, portLine port "ALTR_STREAM_DEBUG=false".toList = port := fun port =>
    portLine_of_none (List.append_nil "ALTR_STREAM_DEBUG=false".toList ▸ hother _ (by simp) [])
  have hend : ∀ port, portLine port [] = port := fun port => portLine_of_none (by decide)
  simp only [List.foldl_append, List.foldl_cons, List.foldl_nil, hfirst, hdebug, hend]
  rw [hite _ environmentKey (by simp [updatedKeys]), hite _ dataVolumeKey (by simp [updatedKeys]),
    hite _ containerNameKey (by simp [updatedKeys]),
    portLine_of_none (hother imageKey (by simp [updatedKeys]) _),
    portLine_of_none (hother "ALTR_FEEDBACK_API_KEY=".toList (by simp) _),
    portLine_of_none (hother "ALTR_STREAM_FEEDBACK_SERVICE_URL=".toList (by simp) _)]

end AltrStream.Installer
