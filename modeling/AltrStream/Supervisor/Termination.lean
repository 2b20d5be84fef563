import AltrStream.Supervisor.Stages

/-! # When a request is brought to an end

A step ends a request if it returns, leaves a terminal status and removes the
request. It does unless a Docker call outside a `try` raises, the rollback meets a
previous version that is no text, or the request cannot be removed.
-/
namespace AltrStream.Supervisor
open Python Domain Foundations Traced

/-- The host reports the end of a request, and no copy of the request is left. -/
def Done (h : Host) : Prop :=
  (∃ s image, h.status = some ⟨.ok s, image⟩ ∧ IsTerminal s) ∧
    h.request = none ∧ h.containerRequest = none

/-- The step returns, and the host is done after it. -/
def Ends {α : Type} (m : Step α) (h : Host) : Prop :=
  (∃ r, m.result = .ok r) ∧ Done (h.run m.events)

/-- The request in the container is removed, if there is one. -/
def Cleaned (h : Host) (a : Answers) : Prop := h.containerRequest = none ∨ a.removesInContainer = true

/-- Nothing is removed in the container. -/
def Keeps (events : List Event) : Prop :=
  ∀ h : Host, (h.run events).containerRequest = h.containerRequest

theorem keeps_of_forall {events : List Event} (h : ∀ e ∈ events, e ≠ .removedInContainer) :
    Keeps events := by
  induction events with
  | nil => exact fun _ => rfl
  | cons e events ih =>
    obtain ⟨he, hrest⟩ := List.forall_mem_cons.1 h
    intro host
    rw [Host.run_cons, ih hrest]
    cases e with
    | removedInContainer => exact absurd rfl he
    | saved file => cases file <;> rfl
    | spoiled file => cases file <;> rfl
    | _ => rfl

theorem keeps_of_free {α : Type} {m : Step α} (h : Only Event.Free m) : Keeps m.events :=
  keeps_of_forall fun e he heq => by simpa [heq, Event.Free] using h e he

theorem keeps_activate (req : Request) (a : Answers) : Keeps (activate req a).events := by
  unfold activate
  cases a.recreatesTarget <;> cases a.copiesToTarget <;>
    simp [act_bind, writeStatus, keeps_of_forall]

theorem keeps_restore (expected : Json) (previous : String) (a : Answers) :
    Keeps (restore expected previous a).events := by
  unfold restore
  cases a.recreatesPrevious <;> simp [act_bind, keeps_of_forall]

/-! ### Stages that end under a condition -/

section
variable {α β : Type} {I : Interpreter} {h : Host} {a : Answers}

/-- From any host the stage ends exactly if the condition holds and the container is cleaned. -/
def EndsIf (a : Answers) (m : Step α) (condition : Prop) : Prop :=
  ∀ h, Ends m h ↔ condition ∧ Cleaned h a

theorem EndsIf.bind {m : Step α} {f : α → Step β} {x : α} {condition : Prop}
    (hok : m.result = .ok x) (hkeeps : Keeps m.events) (hf : EndsIf a (f x) condition) :
    EndsIf a (m >>= f) condition := by
  intro h
  have hrest := hf (h.run m.events)
  rw [Cleaned, hkeeps] at hrest
  rw [Ends, bind_of_ok hok, Host.run_append]
  exact hrest

theorem endsIf_error {m : Step α} {e : Fault} (herror : m.result = .error e) : EndsIf a m False := by
  intro h
  rw [Ends, herror]
  simp

theorem EndsIf.congr {m : Step α} {condition condition' : Prop} (hm : EndsIf a m condition)
    (hiff : condition ↔ condition') : EndsIf a m condition' :=
  fun h => (hm h).trans (and_congr_left' hiff)

theorem endsIf_bind_error {m : Step α} {f : α → Step β} {e : Fault} (herror : m.result = .error e) :
    EndsIf a (m >>= f) False :=
  endsIf_error (by rw [bind_of_error herror])

theorem EndsIf.write {status : Json} {image : Option String} {f : Unit → Step β} {condition : Prop}
    (hf : EndsIf a (f ()) condition) : EndsIf a (writeStatus status image >>= f) condition :=
  .bind rfl (keeps_of_forall (by simp [writeStatus])) hf

theorem endsIf_cleanup {status : Json} {image : Option String} (hterminal : IsTerminal status)
    {r : β} : EndsIf a (do writeStatus status image; cleanupRequestFile true a; return r) True := by
  intro h
  cases hremoves : a.removesInContainer <;>
    simp [Ends, Done, Cleaned, writeStatus, cleanupRequestFile, hremoves, act_bind, Host.apply, hterminal]

theorem endsIf_finish {status : Json} {image : Option String} (hterminal : IsTerminal status) :
    EndsIf a (finish status image true a) True := endsIf_cleanup hterminal

/-! ### Persisting -/

/-- The new contents can be made: the files can be decoded and the template can be read. -/
def Editable (image : String) (h : Host) : Prop :=
  (match h.env with
    | .undecodable => False
    | .text old => newEnv image.toList (universalNewlines old) ≠ none
    | _ => True) ∧
  match h.compose with
  | .undecodable => False
  | .text old => newCompose image.toList (universalNewlines old) ≠ none
  | _ => True

theorem result_save (file : ConfigName) (image : String) (new : List Char) :
    (save file image new a).result = .ok () := by
  unfold save
  split <;> rfl

theorem persistEnv_ok_iff {image : String} : (persistEnv image h a).result = .ok () ↔
    match h.env with
    | .undecodable => False
    | .text old => newEnv image.toList (universalNewlines old) ≠ none
    | _ => True := by
  unfold persistEnv
  cases h.env with
  | text old =>
    dsimp only
    cases hnew : newEnv image.toList (universalNewlines old) with
    | none => simp
    | some new => simp [result_save]
  | _ => simp

theorem persistCompose_ok_iff {image : String} : (persistCompose image h a).result = .ok () ↔
    match h.compose with
    | .undecodable => False
    | .text old => newCompose image.toList (universalNewlines old) ≠ none
    | _ => True := by
  unfold persistCompose
  cases h.compose with
  | text old =>
    dsimp only
    cases hnew : newCompose image.toList (universalNewlines old) with
    | none => simp
    | some new =>
      dsimp only
      split_ifs <;> simp [result_save]
  | _ => simp

theorem persist_ok_iff {image : String} :
    (persistImageUpdate image h a).result = .ok () ↔ Editable image h := by
  rw [persistImageUpdate, result_bind_eq_ok, Editable, ← @persistEnv_ok_iff h a,
    ← @persistCompose_ok_iff h a, Unique.exists_iff]

theorem keeps_persist (image : String) : Keeps (persistImageUpdate image h a).events := by
  refine keeps_of_forall fun e he => ?_
  rcases mem_events_persist he with ⟨file, content, rfl, -⟩ | ⟨file, left, rfl⟩ <;> simp

theorem endsIf_persist {image : String} {f : Unit → Step β} {condition : Prop}
    (hf : EndsIf a (f ()) condition) :
    EndsIf a (persistImageUpdate image h a >>= f) (Editable image h ∧ condition) := by
  cases hresult : (persistImageUpdate image h a).result with
  | ok =>
    have heditable : Editable image h := persist_ok_iff.1 hresult
    exact (EndsIf.bind hresult (keeps_persist image) hf).congr (by simp [heditable])
  | error e =>
    have hnot : ¬ Editable image h := fun heditable => by
      rw [persist_ok_iff.2 heditable] at hresult
      cases hresult
    exact (endsIf_bind_error hresult).congr (by simp [hnot])

end

/-! ### The conditions -/

section
variable (I : Interpreter) (h : Host) (a : Answers)

/-- Where the images can be persisted, and the version expected after a rollback is a text. -/
def SmoothFrom (req : Request) (expected : Json) : Prop :=
  (Activates a → Editable req.targetImage h) ∧
    (¬ Activates a → expected.isText = true ∧
      (Restores a expected → ∀ previous, previousImage I req a = .ok previous → Editable previous h))

/-- No question to Docker raises that is asked outside a `try`. -/
def SmoothUpdate (req : Request) (expected : Json) : Prop :=
  LooksUp a ∧ (Fetches a → (∃ image, a.previousImage = .ok image) ∧ SmoothFrom I h a req expected)

/-- No step of the workflow for this request raises. -/
def Smooth (req : Request) : Prop :=
  (isUnknown (knownVersion req a) = true → ∃ image, a.currentImage = .ok image) ∧
    Comparable I (runningOf a req) req.targetVersion ∧
    (¬ Gated I (runningOf a req) req.targetVersion →
      SmoothUpdate I h a req ((runningOf a req).orElse req.currentVersion))

end

section
variable {I : Interpreter} {h : Host} {a : Answers} {req : Request}

theorem endsIf_complete : EndsIf a (complete I req h a) (Editable req.targetImage h) :=
  (endsIf_persist (endsIf_finish (isTerminal_status (by decide)))).congr (and_iff_left trivial)

theorem endsIf_rollBack {expected : Json} {previous : String} :
    EndsIf a (rollBack I req expected previous h a)
      (expected.isText = true ∧ (Restores a expected → Editable previous h)) := by
  refine .write (.bind restore_result (keeps_restore expected previous a) ?_)
  dsimp only
  cases hexpected : lstripV expected with
  | error e =>
    have hnot : ¬ expected.isText = true := fun htext => by
      obtain ⟨s, hs⟩ := lstripV_ok_iff.2 htext
      rw [hs] at hexpected
      cases hexpected
    exact (endsIf_bind_error rfl).congr (by simp [hnot])
  | ok cleanExpected =>
    have htext : expected.isText = true := lstripV_ok_iff.1 ⟨_, hexpected⟩
    refine .bind (x := cleanExpected) rfl (keeps_of_forall (by simp))
      (.bind rfl (keeps_of_forall (by simp)) ?_)
    have hiff := restores_iff (a := a) hexpected
    cases hrecreates : a.recreatesPrevious with
    | false =>
      refine (endsIf_finish (isTerminal_status (by decide))).congr ?_
      simp [hiff, hrecreates, htext]
    | true =>
      simp only [hrecreates, Bool.true_and, if_true] at hiff ⊢
      split_ifs with hrestored
      · have hrestores : Restores a expected := by simpa [hiff, lstripV] using hrestored
        refine (endsIf_persist (endsIf_finish (isTerminal_status (by decide)))).congr ?_
        simp [htext, hrestores]
      · have hrestores : ¬ Restores a expected := by simpa [hiff, lstripV] using hrestored
        refine (endsIf_finish (isTerminal_status (by decide))).congr ?_
        simp [htext, hrestores]

theorem endsIf_fetched {running : Json} {previous : String}
    (hprevious : previousImage I req a = .ok previous) :
    EndsIf a (do
      if ← activate req a then complete I req h a else rollBack I req running previous h a)
      (SmoothFrom I h a req running) := by
  obtain ⟨active, hactive, hiff⟩ := @activate_result a req
  refine .bind hactive (keeps_activate req a) ?_
  have honly : ∀ p, previousImage I req a = .ok p ↔ p = previous := by
    intro p
    rw [hprevious, Except.ok.injEq, eq_comm]
  cases active with
  | true => exact endsIf_complete.congr (by simp [SmoothFrom, hiff.1 rfl])
  | false =>
    have hnot : ¬ Activates a := fun h => by simpa using hiff.2 h
    exact endsIf_rollBack.congr (by simp [SmoothFrom, hnot, honly])

theorem endsIf_update {running : Json} :
    EndsIf a (update I req running h a)
      (SmoothUpdate I h a req (running.orElse req.currentVersion)) := by
  unfold update
  refine .write ?_
  have hresult := @fetchImage_result a req.targetImage
  cases hfetch : (fetchImage req.targetImage a).result with
  | error e =>
    rw [hfetch] at hresult
    exact (endsIf_bind_error hfetch).congr (by simp [SmoothUpdate, hresult])
  | ok fetched =>
    refine .bind hfetch (keeps_of_free free_fetchImage) ?_
    rw [hfetch] at hresult
    cases fetched with
    | error message =>
      refine (endsIf_finish (isTerminal_status (by decide))).congr ?_
      simp [SmoothUpdate, hresult.1, hresult.2]
    | ok =>
      cases hprevious : a.previousImage with
      | error message =>
        refine (endsIf_bind_error (e := .docker message) ?_).congr ?_
        · simp [previousImage, hprevious]
        · simp [SmoothUpdate, hresult.1, hresult.2, hprevious]
      | ok image =>
        have hsome : ∃ previous, previousImage I req a = .ok previous := by
          cases image <;> simp only [previousImage, hprevious] <;> [exact ⟨_, rfl⟩; skip]
          split_ifs <;> exact ⟨_, rfl⟩
        obtain ⟨previous, hok⟩ := hsome
        refine .bind (x := previous) hok (keeps_of_forall (by simp)) (.write ?_)
        refine (endsIf_fetched hok).congr ?_
        simp [SmoothUpdate, hresult.1, hresult.2, hprevious]

theorem endsIf_processRequest {file : JsonFile} :
    EndsIf a (processRequest I file h a) (∀ req, readRequest I file = .ok req → Smooth I h a req) := by
  unfold processRequest
  cases hread : readRequest I file with
  | error message =>
    exact (endsIf_cleanup ⟨"failed", by decide, by simp⟩).congr (by simp)
  | ok req =>
    have honly : (∀ r, Except.ok req = (.ok r : Except String Request) → Smooth I h a r) ↔
        Smooth I h a req := by simp
    rw [honly]
    have hresult := @runningVersion_result a req
    cases hrunning : (runningVersion req a).result with
    | error e =>
      rw [hrunning] at hresult
      refine (endsIf_bind_error hrunning).congr ?_
      simp only [Smooth, false_iff, not_and_or]
      exact .inl fun hanswered => hresult.2 (hanswered hresult.1)
    | ok running =>
      rw [hrunning] at hresult
      obtain ⟨rfl, hanswered⟩ := hresult
      refine .bind hrunning (keeps_of_free free_runningVersion) ?_
      have hgate := @gate_result I req (runningOf a req)
      cases hverdict : gate I req (runningOf a req) with
      | error e =>
        rw [hverdict] at hgate
        exact (endsIf_bind_error rfl).congr (by simp [Smooth, hgate])
      | ok verdict =>
        refine .bind (x := verdict) rfl (keeps_of_forall (by simp)) ?_
        rw [hverdict] at hgate
        cases verdict with
        | some status =>
          have hterminal : IsTerminal status := by
            rcases hgate.2.2 with hfailed | ⟨hcompleted, -⟩
            · exact ⟨_, by decide, hfailed⟩
            · exact ⟨_, by decide, hcompleted⟩
          exact (endsIf_finish hterminal).congr
            ⟨fun _ => ⟨hanswered, hgate.1, (absurd hgate.2.1 ·)⟩, fun _ => trivial⟩
        | none =>
          exact endsIf_update.congr ⟨fun hsmooth => ⟨hanswered, hgate.1, fun _ => hsmooth⟩,
            fun hsmooth => hsmooth.2.2 hgate.2⟩

end

/-! ### Requests that are found -/

/-- The request that was found is answered with a terminal status and removed. -/
def EndsRequest (I : Interpreter) (h : Host) (a : Answers) : Prop :=
  Ends (processPendingRequest I h a) h

/-- A request is brought to an end exactly if every question outside a `try` is answered, the
versions can be compared, the images can be persisted, the version expected after a failed activation
is a text, and no copy of the request stays in the container. -/
theorem endsRequest_iff (I : Interpreter) {h : Host} {a : Answers} {file : JsonFile}
    (hfound : (syncRequest h a).result = .ok (some file)) :
    EndsRequest I h a ↔ (∀ req, readRequest I file = .ok req → Smooth I h a req) ∧ Cleaned h a :=
  EndsIf.bind hfound (keeps_of_free free_syncRequest) endsIf_processRequest h

/-- A file that cannot be read is answered and removed. -/
theorem endsRequest_unreadable : EndsRequest ⟨.ascii, .ascii, .names⟩
    { request := some (.error "Expecting value: line 1 column 1 (char 0)") } {} :=
  (endsRequest_iff _ rfl).2 ⟨fun _ hread => (nomatch hread), .inl rfl⟩

/-- Docker answers, the target does not get healthy, and the request names no current version. -/
def versionless : Host where
  request := some (.ok (.obj [("target_version", .text "2.0.0"),
    ("target_image", .text "altr-stream:2.0.0"), ("current_version", .null)]))

/-- The rollback has recreated the service when it strips the missing version and raises. -/
theorem not_endsRequest_versionless : ¬ ∀ (I : Interpreter) (h : Host) (a : Answers) (file : JsonFile),
    (syncRequest h a).result = .ok (some file) → EndsRequest I h a := by
  intro hall
  obtain ⟨⟨r, hr⟩, -⟩ := hall ⟨.ascii, .ascii, .names⟩ versionless { targetHealthy := false } _ rfl
  have hraises : (processPendingRequest ⟨.ascii, .ascii, .names⟩ versionless
      { targetHealthy := false }).result.toOption = none := by decide
  rw [hr] at hraises
  cases hraises

end AltrStream.Supervisor
