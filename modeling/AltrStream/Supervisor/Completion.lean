import AltrStream.Supervisor.Persisted
import AltrStream.Supervisor.Stages

/-! # What is persisted when an update completes

Runs of the supervisor: requests are processed, a restarted supervisor reconciles,
both can be cut short by a crash, and anything can happen to the host in between.
-/
namespace AltrStream.Supervisor
open Python Domain Foundations Traced

/-- The last assignment in `.env` and every reference in the compose file name the image. -/
def Persisted (image : String) (h : Host) : Prop :=
  (∀ content, h.env = .text content →
    (envImages (universalNewlines content)).getLast? = some image.toList) ∧
  ∀ content, h.compose = .text content →
    ∀ found ∈ composeImages (universalNewlines content), found = image.toList

/-! ### Runs -/

inductive Move where
  /-- A step of the loop, cut short after some actions by a crash. -/
  | process (a : Answers) (crash : Option ℕ)
  | reconcile (a : Answers) (crash : Option ℕ)
  /-- Requests arrive, files are edited. -/
  | outside (after : Host)

section
variable (I : Interpreter)

def Move.events (h : Host) : Move → List Event
  | .process a crash => survived crash (processPendingRequest I h a).events
  | .reconcile a crash => survived crash (reconcileStartupState I h a).events
  | .outside _ => []
where
  survived (crash : Option ℕ) (events : List Event) : List Event :=
    crash.elim events fun n => events.take n

def Move.after (h : Host) : Move → Host
  | .outside after => after
  | move => h.run (move.events I h)

/-- The actions, each with the host that it meets. -/
def stamped (h : Host) : List Event → List (Host × Event)
  | [] => []
  | e :: events => (h, e) :: stamped (h.apply e) events

def history (h : Host) : List Move → List (Host × Event)
  | [] => []
  | move :: moves => stamped h (move.events I h) ++ history (move.after I h) moves

/-- A property of every move and the host that it starts from. -/
def EveryMove (p : Host → Move → Prop) (h : Host) : List Move → Prop
  | [] => True
  | move :: moves => p h move ∧ EveryMove p (move.after I h) moves

/-- What is reported as completed is persisted. -/
def CompletedPersisted (h : Host) (e : Event) : Prop :=
  ∀ status image, e = .wrote status (some image) → state? status = some "completed" → Persisted image h

/-- Files can be written. -/
def Writable (_ : Host) : Move → Prop
  | .process a _ | .reconcile a _ => ∀ file, a.writeFailed file = none
  | .outside _ => True

/-- A workflow was interrupted whose target is live now. -/
def ReachedTarget (a : Answers) (data : Json) : Prop :=
  ∃ state target, data.get "state" (.text "") = .ok state ∧
    I.casing.lower (I.printer.str state) ∈ activeStates ∧
    data.get "target_version" .null = .ok target ∧ AlreadyRuns I (Json.ofText? a.liveVersion) target

/-- Where nothing will be persisted the image has been, and a new image is one that can be read back. -/
def Settled (h : Host) : Move → Prop
  | .process a _ => ∀ req running, Processes I h a req running →
      (AlreadyRuns I running req.targetVersion → Persisted req.targetImage h) ∧
      (¬ Gated I running req.targetVersion → Fetches a → Activates a → PlainImage req.targetImage.toList)
  | .reconcile a _ => ∀ data image, h.status = some ⟨.ok data, some image⟩ → ReachedTarget I a data →
      Persisted image h
  | .outside _ => True

end

/-! ### Persisting -/

section
variable {h h' : Host} {a : Answers} {image : String}

theorem persistEnv_spec (hwritable : ∀ file, a.writeFailed file = none)
    (hok : (persistEnv image h a).result = .ok ()) :
    (∃ old new, h.env = .text old ∧ newEnv image.toList (universalNewlines old) = some new ∧
      (persistEnv image h a).events = [.saved .env image new]) ∨
    (∀ content, h.env ≠ .text content) ∧ (persistEnv image h a).events = [] := by
  unfold persistEnv at hok ⊢
  cases henv : h.env with
  | text old =>
    cases hnew : newEnv image.toList (universalNewlines old) with
    | none => simp [henv, hnew] at hok
    | some new => exact .inl ⟨old, new, rfl, hnew, by simp [hnew, save, hwritable]⟩
  | _ => exact .inr ⟨by simp, rfl⟩

theorem persistCompose_spec (hwritable : ∀ file, a.writeFailed file = none)
    (hok : (persistCompose image h a).result = .ok ()) :
    (∃ old new, h.compose = .text old ∧ newCompose image.toList (universalNewlines old) = some new ∧
      ((persistCompose image h a).events = [.saved .compose image new] ∨
        (persistCompose image h a).events = [] ∧ new = universalNewlines old)) ∨
    (∀ content, h.compose ≠ .text content) ∧ (persistCompose image h a).events = [] := by
  unfold persistCompose at hok ⊢
  cases hcompose : h.compose with
  | text old =>
    cases hnew : newCompose image.toList (universalNewlines old) with
    | none => simp [hcompose, hnew] at hok
    | some new =>
      refine .inl ⟨old, new, rfl, hnew, ?_⟩
      by_cases hsame : new = universalNewlines old
      · exact .inr ⟨by simp only [hnew, if_pos hsame, events_pure], hsame⟩
      · exact .inl (by simp [hnew, hsame, save, hwritable])
  | _ => exact .inr ⟨by simp, rfl⟩

/-- After a plain image was persisted, both files name it. -/
theorem persisted_of_persist (hplain : PlainImage image.toList)
    (hwritable : ∀ file, a.writeFailed file = none) (henv : h'.env = h.env)
    (hcompose : h'.compose = h.compose) (hok : (persistImageUpdate image h a).result = .ok ()) :
    Persisted image (h'.run (persistImageUpdate image h a).events) := by
  obtain ⟨⟨⟩, henvOk, hcomposeOk⟩ := result_bind_eq_ok.1 hok
  have hevents : (persistImageUpdate image h a).events =
      (persistEnv image h a).events ++ (persistCompose image h a).events := by
    rw [persistImageUpdate, bind_of_ok henvOk]
  have hread : ∀ new, '\r' ∉ new → universalNewlines new = new := fun _ => universalNewlines_of_not_mem
  rw [hevents, Host.run_append]
  constructor
  · intro content hcontent
    rcases persistEnv_spec hwritable henvOk with ⟨old, new, -, hnew, hsaved⟩ | ⟨hnone, hsaved⟩
    · have hkept : ((h'.run (persistEnv image h a).events).run (persistCompose image h a).events).env =
          .text new := by
        rcases persistCompose_spec hwritable hcomposeOk with ⟨_, _, -, -, hc | ⟨hc, -⟩⟩ | ⟨-, hc⟩ <;>
          rw [hsaved, hc] <;> rfl
      rw [hkept] at hcontent
      obtain rfl := ConfigFile.text.inj hcontent
      rw [hread _ (not_mem_newEnv hplain (not_mem_universalNewlines old) hnew)]
      exact envImages_newEnv hplain hnew
    · refine absurd ?_ (hnone content)
      rw [← henv, ← hcontent]
      rcases persistCompose_spec hwritable hcomposeOk with ⟨_, _, -, -, hc | ⟨hc, -⟩⟩ | ⟨-, hc⟩ <;>
        rw [hsaved, hc] <;> rfl
  · intro content hcontent
    have hfirst : (h'.run (persistEnv image h a).events).compose = h.compose := by
      rcases persistEnv_spec hwritable henvOk with ⟨_, _, -, -, he⟩ | ⟨-, he⟩ <;> rw [he, ← hcompose] <;> rfl
    rcases persistCompose_spec hwritable hcomposeOk with
      ⟨old, new, hold, hnew, hsaved | ⟨hsaved, hsame⟩⟩ | ⟨hnone, hsaved⟩
    · rw [hsaved] at hcontent
      obtain rfl : new = content := ConfigFile.text.inj hcontent
      rw [hread _ (not_mem_newCompose hplain (not_mem_universalNewlines old) hnew)]
      exact composeImages_newCompose hplain hnew
    · rw [hsaved, Host.run_nil, hfirst, hold] at hcontent
      obtain rfl := ConfigFile.text.inj hcontent
      rw [← hsame]
      exact composeImages_newCompose hplain hnew
    · rw [hsaved, Host.run_nil, hfirst] at hcontent
      exact absurd hcontent (hnone content)

end

/-! ### One move -/

/-- Neither file is touched. -/
def KeepsFiles (events : List Event) : Prop :=
  ∀ h : Host, (h.run events).env = h.env ∧ (h.run events).compose = h.compose

def Event.Edits : Event → Prop
  | .saved .. | .spoiled .. => True
  | _ => False

theorem keepsFiles_of_forall {events : List Event} (h : ∀ e ∈ events, ¬ e.Edits) : KeepsFiles events := by
  induction events with
  | nil => exact fun _ => ⟨rfl, rfl⟩
  | cons e events ih =>
    obtain ⟨he, hrest⟩ := List.forall_mem_cons.1 h
    intro host
    rw [Host.run_cons, (ih hrest _).1, (ih hrest _).2]
    cases e with
    | saved | spoiled => exact absurd trivial he
    | _ => exact ⟨rfl, rfl⟩

theorem Persisted.of_keepsFiles {image : String} {h : Host} {events : List Event}
    (himage : Persisted image h) (hkeeps : KeepsFiles events) : Persisted image (h.run events) := by
  rwa [Persisted, (hkeeps h).1, (hkeeps h).2]

/-- The action is allowed after these if what it completes is persisted then. -/
def Completes (h : Host) (before : List Event) (e : Event) : Prop := CompletedPersisted (h.run before) e

section
variable {I : Interpreter} {h : Host} {a : Answers} {before : List Event} {req : Request} {running : Json}

theorem not_edits_of_free {e : Event} (he : e.Free) : ¬ e.Edits := by
  cases e <;> simp_all [Event.Free, Event.Edits]

theorem keepsFiles_of_free {α : Type} {m : Step α} (hm : Only Event.Free m) : KeepsFiles m.events :=
  keepsFiles_of_forall fun e he => not_edits_of_free (hm e he)

theorem keepsFiles_nil : KeepsFiles [] := fun _ => ⟨rfl, rfl⟩

theorem KeepsFiles.append {events events' : List Event} (h : KeepsFiles events)
    (h' : KeepsFiles events') : KeepsFiles (events ++ events') := by
  intro host
  rw [Host.run_append, (h' _).1, (h' _).2]
  exact h host

theorem guarded_of_free' {α : Type} {m : Step α} (hm : Only Event.Free m) :
    Guarded (Completes h) before m := by
  refine .of_only hm fun before e he status image heq hcompleted => ?_
  subst heq
  exact absurd hcompleted he.1

theorem completes_of_state {status : Json} {image : Option String}
    (hstate : state? status ≠ some "completed") : Completes h before (.wrote status image) := by
  intro status' image' heq hcompleted
  obtain ⟨rfl, -⟩ := Event.wrote.inj heq
  exact absurd hcompleted hstate

theorem completes_of_silent {e : Event} (he : ∀ status about, e ≠ .wrote status about) :
    Completes h before e := fun status _ heq => absurd heq (he status _)

theorem completes_of_cleans (before : List Event) (e : Event) (hcleans : e.Cleans) :
    Completes h before e := by
  refine completes_of_silent ?_
  rintro status about rfl
  exact hcleans

theorem guarded_persist' {image : String} :
    Guarded (Completes h) before (persistImageUpdate image h a) := by
  refine .of_only (p := fun e => ∀ status about, e ≠ .wrote status about) (fun e he => ?_)
    fun before e he => completes_of_silent he
  rcases mem_events_persist he with ⟨file, content, rfl, -⟩ | ⟨file, left, rfl⟩ <;> simp

theorem guarded_complete' (hplain : PlainImage req.targetImage.toList)
    (hwritable : ∀ file, a.writeFailed file = none) (hbefore : KeepsFiles before) :
    Guarded (Completes h) before (complete I req h a) := by
  refine .bind guarded_persist' fun _ hok => ?_
  refine guarded_finish completes_of_cleans fun status image heq _ => ?_
  obtain ⟨-, himage⟩ := Event.wrote.inj heq
  obtain rfl := Option.some.inj himage
  rw [Host.run_append]
  exact persisted_of_persist hplain hwritable (hbefore h).1 (hbefore h).2 hok

theorem keepsFiles_activate : KeepsFiles (activate req a).events := by
  refine keepsFiles_of_forall ?_
  unfold activate
  cases a.recreatesTarget <;> cases a.copiesToTarget <;> simp [act_bind, writeStatus, Event.Edits]

theorem guarded_activate' : Guarded (Completes h) before (activate req a) := by
  unfold activate
  refine .bind (.act (completes_of_silent (by simp))) fun _ _ => ?_
  split_ifs
  · refine .bind (.act (completes_of_state (by simp))) fun _ _ => ?_
    exact .bind (.act (completes_of_silent (by simp))) fun _ _ => .pure _
  · exact .pure _

theorem guarded_rollBack' {expected : Json} {previous : String} :
    Guarded (Completes h) before (rollBack I req expected previous h a) := by
  refine .bind (.act (completes_of_state (by simp))) fun _ _ => .bind ?_ fun seen _ => ?_
  · unfold restore
    refine .bind (.act (completes_of_silent (by simp))) fun _ _ => ?_
    split_ifs
    · refine .bind (.act (completes_of_silent (by simp))) fun _ _ => ?_
      exact .bind (.act (completes_of_silent (by simp))) fun _ _ => .pure _
    · exact .pure _
  · refine .bind (.answer _) fun _ _ => .bind (.answer _) fun _ _ => ?_
    split_ifs
    · refine .bind guarded_persist' fun _ _ => guarded_finish completes_of_cleans ?_
      exact completes_of_state (by simp [rolledBackStatus])
    · exact guarded_finish completes_of_cleans (completes_of_state (by simp [rollbackFailedStatus]))

theorem guarded_update' (hwritable : ∀ file, a.writeFailed file = none) (hbefore : KeepsFiles before)
    (hplain : Fetches a → Activates a → PlainImage req.targetImage.toList) :
    Guarded (Completes h) before (update I req running h a) := by
  refine .bind (.act (completes_of_state (by simp))) fun _ _ => ?_
  refine .bind (guarded_of_free' free_fetchImage) fun fetched hfetched => ?_
  have hresult := @fetchImage_result a req.targetImage
  rw [hfetched] at hresult
  have hwrote : ∀ status image, KeepsFiles [Event.wrote status image] := fun _ _ =>
    keepsFiles_of_forall (by simp [Event.Edits])
  cases fetched with
  | error message => exact guarded_finish completes_of_cleans (completes_of_state (by simp))
  | ok =>
    refine .bind (.answer _) fun previous _ => .bind (.act (completes_of_state (by simp))) fun _ _ => ?_
    refine .bind guarded_activate' fun active hactive => ?_
    obtain ⟨active', hactive', hiff⟩ := @activate_result a req
    obtain rfl : active' = active := Except.ok.inj (hactive'.symm.trans hactive)
    cases active' with
    | true =>
      refine guarded_complete' (hplain hresult.2 (hiff.1 rfl)) hwritable ?_
      exact ((((hbefore.append (hwrote _ _)).append (keepsFiles_of_free free_fetchImage)).append
        keepsFiles_nil).append (hwrote _ _)).append keepsFiles_activate
    | false => exact guarded_rollBack'

/-- In a settled step of the loop, what is reported as completed is persisted. -/
theorem guarded_process (hwritable : ∀ file, a.writeFailed file = none)
    (hsettled : Settled I h (.process a none)) :
    Guarded (Completes h) [] (processPendingRequest I h a) := by
  refine .bind (guarded_of_free' free_syncRequest) fun found hfound => ?_
  cases found with
  | none => exact .pure _
  | some file =>
    change Guarded _ _ (processRequest I file h a)
    unfold processRequest
    cases hread : readRequest I file with
    | error message =>
      exact .bind (.act (completes_of_state (by simp))) fun _ _ =>
        .bind (.of_only cleans_cleanup completes_of_cleans) fun _ _ => .pure _
    | ok req =>
      refine .bind (guarded_of_free' free_runningVersion) fun running hrunning => ?_
      refine .bind (.answer _) fun verdict hgate => ?_
      obtain ⟨halready, hplain⟩ := hsettled req running ⟨file, hfound, hread, hrunning⟩
      have hkeeps : KeepsFiles ([] ++ (syncRequest h a).events ++ (runningVersion req a).events ++ []) :=
        ((keepsFiles_nil.append (keepsFiles_of_free free_syncRequest)).append
          (keepsFiles_of_free free_runningVersion)).append keepsFiles_nil
      have hgated := @gate_result I req running
      rw [show gate I req running = _ from hgate] at hgated
      cases verdict with
      | none => exact guarded_update' hwritable hkeeps (hplain hgated.2)
      | some status =>
        refine guarded_finish completes_of_cleans fun status' image heq hcompleted => ?_
        obtain ⟨rfl, himage⟩ := Event.wrote.inj heq
        obtain rfl := Option.some.inj himage
        rcases hgated.2.2 with hfailed | ⟨-, hruns⟩
        · rw [hfailed] at hcompleted
          exact absurd hcompleted (by decide)
        · exact (halready hruns).of_keepsFiles hkeeps

theorem state?_reconciledStatus {state : String} {requestId currentVersion targetVersion : Json}
    {live : Option String} (hcompleted : state? (reconciledStatus I state requestId currentVersion
      targetVersion live) = some "completed") : AlreadyRuns I (Json.ofText? live) targetVersion := by
  have hlive : version? I (Json.ofText? live) = live.bind (SemVer.tryParse I.unicode) := by
    cases live <;> rfl
  unfold reconciledStatus at hcompleted
  split at hcompleted
  · rename_i r t hr ht
    split_ifs at hcompleted with hsame
    · exact ⟨r, t, hlive.trans hr, ht, hsame⟩
    · simp [reconciledStatus.interrupted, state?, statusOf, Json.get, Dict.get?, Json.text?] at hcompleted
  · simp [reconciledStatus.interrupted, state?, statusOf, Json.get, Dict.get?, Json.text?] at hcompleted

/-- In a settled reconciliation, what is reported as completed is persisted. -/
theorem guarded_reconcile (hsettled : Settled I h (.reconcile a none)) :
    Guarded (Completes h) [] (reconcileStartupState I h a) := by
  unfold reconcileStartupState
  split
  · exact .pure _
  · exact .pure _
  · rename_i data image hstatus
    refine .bind (.answer _) fun state hstate => ?_
    dsimp only
    split_ifs with hactive
    · refine .bind (.answer _) fun requestId _ => .bind (.answer _) fun currentVersion _ => ?_
      refine .bind (.answer _) fun targetVersion htarget => ?_
      refine .bind (.act (completes_of_silent (by simp))) fun _ _ => ?_
      refine guarded_finish completes_of_cleans fun status image' heq hcompleted => ?_
      obtain ⟨rfl, rfl⟩ := Event.wrote.inj heq
      have hget : ∀ {r : Except String Json} {v : Json}, r.mapError Fault.noAttribute = .ok v → r = .ok v := by
        intro r v hr
        cases r with
        | ok w => exact congrArg _ (Except.ok.inj hr)
        | error e => cases hr
      have hreached : ReachedTarget I a data :=
        ⟨state, targetVersion, hget hstate, hactive, hget htarget, state?_reconciledStatus hcompleted⟩
      exact (hsettled data image' hstatus hreached).of_keepsFiles
        (keepsFiles_of_forall (by simp [Event.Edits]))
    · exact .pure _

/-! ### Runs -/

theorem mem_stamped {events : List Event} {met : Host × Event} (hmem : met ∈ stamped h events) :
    ∃ pre post, events = pre ++ met.2 :: post ∧ met.1 = h.run pre := by
  induction events generalizing h with
  | nil => cases hmem
  | cons e events ih =>
    rcases List.mem_cons.1 hmem with rfl | hmem
    · exact ⟨[], events, rfl, rfl⟩
    · obtain ⟨pre, post, rfl, hhost⟩ := ih hmem
      exact ⟨e :: pre, post, rfl, hhost⟩

/-- A crash only leaves later actions out. -/
theorem completed_of_guarded {α : Type} {m : Step α} (hm : Guarded (Completes h) [] m)
    (crash : Option ℕ) {met : Host × Event} (hmem : met ∈ stamped h (Move.events.survived crash m.events)) :
    CompletedPersisted met.1 met.2 := by
  obtain ⟨pre, post, hevents, hhost⟩ := mem_stamped hmem
  have hinit : ∃ rest, m.events = pre ++ met.2 :: rest := by
    cases crash with
    | none => exact ⟨post, hevents⟩
    | some n =>
      refine ⟨post ++ m.events.drop n, ?_⟩
      have htake : m.events.take n = pre ++ met.2 :: post := hevents
      calc m.events = m.events.take n ++ m.events.drop n := (List.take_append_drop n _).symm
        _ = pre ++ met.2 :: (post ++ m.events.drop n) := by rw [htake]; simp
  obtain ⟨rest, hrest⟩ := hinit
  rw [hhost]
  exact hm pre met.2 rest hrest

end

/-- In every run whose moves are settled, from any host, an update is reported as completed only
when its image is persisted. -/
theorem completed_persisted (I : Interpreter) (h : Host) (moves : List Move)
    (hwritable : EveryMove I Writable h moves) (hsettled : EveryMove I (Settled I) h moves) :
    ∀ met ∈ history I h moves, CompletedPersisted met.1 met.2 := by
  induction moves generalizing h with
  | nil => simp [history]
  | cons move moves ih =>
    obtain ⟨hw, hwrest⟩ := hwritable
    obtain ⟨hs, hsrest⟩ := hsettled
    refine List.forall_mem_append.2 ⟨fun met hmem => ?_, ih _ hwrest hsrest⟩
    cases move with
    | process a crash => exact completed_of_guarded (guarded_process hw hs) crash hmem
    | reconcile a crash => exact completed_of_guarded (guarded_reconcile hs) crash hmem
    | outside after => cases hmem

/-- A workflow that was interrupted after its image was persisted. -/
def interrupted : Host where
  status := some ⟨.ok (.obj [("state", .text "health_check"), ("target_version", .text "2.0.0")]),
    some "altr-stream:2.0.0"⟩
  env := .text "ALTR_STREAM_IMAGE=altr-stream:2.0.0\n".toList

theorem completed_persisted_interrupted :
    history ⟨.ascii, .ascii, .names⟩ interrupted [.reconcile { liveVersion := some "2.0.0" } none] ≠ [] ∧
      ∀ met ∈ history ⟨.ascii, .ascii, .names⟩ interrupted
        [.reconcile { liveVersion := some "2.0.0" } none], CompletedPersisted met.1 met.2 := by
  refine ⟨by decide, completed_persisted _ _ _ ⟨fun _ => rfl, trivial⟩ ⟨?_, trivial⟩⟩
  intro data image hstatus _
  obtain rfl : "altr-stream:2.0.0" = image := by
    injection hstatus with hstatus
    injection hstatus with _ himage
    exact Option.some.inj himage
  refine ⟨fun content hcontent => ?_, fun content hcontent => nomatch hcontent⟩
  obtain rfl := ConfigFile.text.inj hcontent
  decide

/-- A request for the published image of a newer version. -/
def requested : Host where
  request := some (.ok (.obj [("target_version", .text "2.0.0"),
    ("target_image", .text "ghcr.io/helloaltr/altr-stream:2.0.0"), ("current_version", .text "1.0.0")]))
  env := .text "ALTR_STREAM_IMAGE=ghcr.io/helloaltr/altr-stream:1.0.0\n".toList

/-- The event reports an image as completed that the host does not have as its last one. -/
def reportsUnpersisted (met : Host × Event) : Bool :=
  match met.2, met.1.env with
  | .wrote status (some image), .text content => state? status = some "completed" &&
      (envImages (universalNewlines content)).getLast? ≠ some image.toList
  | _, _ => false

/-- The supervisor dies when it has recreated the service, and completes the update after a restart. -/
theorem not_completed_persisted : ¬ ∀ (I : Interpreter) (h : Host) (moves : List Move),
    EveryMove I Writable h moves → ∀ met ∈ history I h moves, CompletedPersisted met.1 met.2 := by
  intro hall
  have hbad : (history ⟨.ascii, .ascii, .names⟩ requested
      [.process { liveVersion := some "1.0.0" } (some 6), .reconcile { liveVersion := some "2.0.0" } none]).any
      reportsUnpersisted = true := by decide
  obtain ⟨⟨h, e⟩, hmem, hbad⟩ := List.any_eq_true.1 hbad
  have hgood := hall _ _ _ (by exact ⟨fun _ => rfl, fun _ => rfl, trivial⟩) _ hmem
  unfold reportsUnpersisted at hbad
  dsimp only at hbad hgood
  split at hbad
  · rename_i status image content henv
    rw [Bool.and_eq_true, decide_eq_true_eq, decide_eq_true_eq] at hbad
    exact hbad.2 ((hgood status image rfl hbad.1).1 content henv)
  · cases hbad

end AltrStream.Supervisor
