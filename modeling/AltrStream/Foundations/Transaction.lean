import Mathlib.Data.List.Basic

/-! # Transactions on a store

A session reads and writes the working copy of its open transaction, or the store
itself while none is open. A statement is carried out as a whole or not at all.
`Within` says what a computation does to a transaction it leaves open, and
`AllOrNothing` that a computation which raises has changed nothing.
-/
namespace AltrStream.Foundations

structure Session (σ : Type) where
  stored : σ
  working : Option σ := none

def Session.view {σ : Type} (s : Session σ) : σ := s.working.getD s.stored

/-- A computation in a session, which may raise. -/
def Transact (σ ε α : Type) := Session σ → Except ε α × Session σ

namespace Transact

variable {σ ε ε' α β : Type}

protected def bind (m : Transact σ ε α) (f : α → Transact σ ε β) : Transact σ ε β := fun s =>
  match m s with
  | (.ok a, s') => f a s'
  | (.error e, s') => (.error e, s')

instance : Monad (Transact σ ε) where
  pure a := fun s => (.ok a, s)
  bind := Transact.bind

instance : LawfulMonad (Transact σ ε) := by
  refine LawfulMonad.mk' _ (fun m => ?_) (fun _ _ => rfl) (fun m f g => ?_)
  · funext s
    change Transact.bind m _ s = _
    unfold Transact.bind
    rcases m s with ⟨_ | _, _⟩ <;> rfl
  · funext s
    change Transact.bind (Transact.bind m f) g s = Transact.bind m (fun a => Transact.bind (f a) g) s
    unfold Transact.bind
    rcases m s with ⟨_ | _, _⟩ <;> rfl

/-- Return or raise as an answer says. -/
def answer (r : Except ε α) : Transact σ ε α := fun s => (r, s)

/-- Read the session. -/
def look (g : Session σ → α) : Transact σ ε α := fun s => (.ok (g s), s)

/-- Open a transaction on the present store. -/
def begin : Transact σ ε Unit := fun s => (.ok (), ⟨s.stored, some s.view⟩)

/-- Carry out a statement on what the session sees. -/
def statement (f : σ → Except ε (α × σ)) : Transact σ ε α := fun s =>
  match f s.view with
  | .ok (a, t) => (.ok a, if s.working.isSome then ⟨s.stored, some t⟩ else ⟨t, none⟩)
  | .error e => (.error e, s)

/-- A statement that opens a transaction unless one is open. -/
def implicitly (m : Transact σ ε α) : Transact σ ε α := fun s => m ⟨s.stored, some s.view⟩

/-- Store the working copy, unless the store refuses it. -/
def commit (refuses : σ → Option ε) : Transact σ ε Unit := fun s =>
  match refuses s.view with
  | some e => (.error e, s)
  | none => (.ok (), ⟨s.view, none⟩)

/-- A computation and the commit that follows it. -/
def committing (refuses : σ → Option ε) (m : Transact σ ε α) : Transact σ ε α := do
  let a ← m
  commit refuses
  return a

/-- Drop the working copy; closing the connection does the same. -/
def rollback (s : Session σ) : Session σ := ⟨s.stored, none⟩

/-- `except: clean up; raise` -/
def onError (cleanup : Session σ → Session σ) (m : Transact σ ε α) : Transact σ ε α := fun s =>
  match m s with
  | (.ok a, s') => (.ok a, s')
  | (.error e, s') => (.error e, cleanup s')

/-- `finally: clean up` -/
def afterwards (cleanup : Session σ → Session σ) (m : Transact σ ε α) : Transact σ ε α := fun s =>
  ((m s).1, cleanup (m s).2)

/-- The exception is wrapped into another one. -/
def mapError (f : ε → ε') (m : Transact σ ε α) : Transact σ ε' α := fun s =>
  ((m s).1.mapError f, (m s).2)

theorem bind_of_ok {m : Transact σ ε α} {s s' : Session σ} {a : α} (h : m s = (.ok a, s'))
    (f : α → Transact σ ε β) : (m >>= f) s = f a s' := by
  change Transact.bind m f s = _
  rw [Transact.bind, h]

theorem bind_of_error {m : Transact σ ε α} {s s' : Session σ} {e : ε} (h : m s = (.error e, s'))
    (f : α → Transact σ ε β) : (m >>= f) s = (.error e, s') := by
  change Transact.bind m f s = _
  rw [Transact.bind, h]

/-- Without a transaction a statement stores at once. -/
theorem statement_of_ok {f : σ → Except ε (α × σ)} {stored t : σ} {a : α}
    (h : f stored = .ok (a, t)) : statement f ⟨stored, none⟩ = (.ok a, ⟨t, none⟩) := by
  have hview : f (Session.view ⟨stored, none⟩) = .ok (a, t) := h
  rw [statement, hview]
  rfl

theorem statement_of_error {f : σ → Except ε (α × σ)} {s : Session σ} {e : ε}
    (h : f s.view = .error e) : statement f s = (.error e, s) := by
  rw [statement, h]

/-! ### Inside a transaction -/

/-- From a session in `p`, a computation keeps what is stored. If it returns, the
session is in `p` again and has had the effect on what the session sees. -/
def Within (p : Session σ → Prop) (m : Transact σ ε α) (effect : σ → σ) : Prop :=
  ∀ s, p s → (m s).2.stored = s.stored ∧
    ∀ a, (m s).1 = .ok a → p (m s).2 ∧ (m s).2.view = effect s.view

/-- A transaction is open. -/
def IsOpen (s : Session σ) : Prop := s.working.isSome = true

namespace Within

variable {p : Session σ → Prop} {effect effect' : σ → σ}

theorem pure (a : α) : Within p (Pure.pure a : Transact σ ε α) id :=
  fun _ hp => ⟨rfl, fun _ _ => ⟨hp, rfl⟩⟩

theorem bind {m : Transact σ ε α} {f : α → Transact σ ε β} (hm : Within p m effect)
    (hf : ∀ a, Within p (f a) effect') : Within p (m >>= f) (effect' ∘ effect) := by
  intro s hp
  obtain ⟨hkept, hret⟩ := hm s hp
  rcases hrun : m s with ⟨_ | a, s'⟩
  · rw [bind_of_error hrun]
    rw [hrun] at hkept
    exact ⟨hkept, fun b hb => nomatch hb⟩
  · rw [bind_of_ok hrun]
    rw [hrun] at hkept hret
    obtain ⟨hp', hview⟩ := hret a rfl
    obtain ⟨hkept', hret'⟩ := hf a s' hp'
    refine ⟨hkept'.trans hkept, fun b hb => ?_⟩
    obtain ⟨hp'', hview'⟩ := hret' b hb
    exact ⟨hp'', by rw [hview', hview, Function.comp]⟩

theorem mapM {γ : Type} {f : γ → Transact σ ε α} {effect : γ → σ → σ} {l : List γ}
    (h : ∀ x ∈ l, Within p (f x) (effect x)) :
    Within p (l.mapM f) fun t => l.foldl (fun t x => effect x t) t := by
  induction l with
  | nil => exact pure _
  | cons x l ih =>
    rw [List.mapM_cons]
    exact bind (h x (by simp)) fun a =>
      bind (ih fun y hy => h y (List.mem_cons_of_mem _ hy)) fun _ => pure _

theorem statement {f : σ → Except ε (α × σ)} (h : ∀ t a t', f t = .ok (a, t') → t' = effect t) :
    Within IsOpen (Transact.statement f) effect := by
  intro s hopen
  rcases hrun : f s.view with e | ⟨a, t⟩
  · rw [statement_of_error hrun]
    exact ⟨rfl, fun _ h => nomatch h⟩
  · have hworking : s.working.isSome = true := hopen
    simp only [Transact.statement, hrun, if_pos hworking]
    exact ⟨trivial, fun _ _ => ⟨rfl, h _ _ _ hrun⟩⟩

/-- A statement that opens its transaction may start from any session. -/
theorem implicitly {m : Transact σ ε α} (h : Within IsOpen m effect) :
    Within (fun _ => True) (Transact.implicitly m) effect := by
  intro s _
  obtain ⟨hkept, hret⟩ := h ⟨s.stored, some s.view⟩ rfl
  exact ⟨hkept, fun a ha => ⟨trivial, (hret a ha).2⟩⟩

end Within

/-! ### All or nothing -/

/-- A computation that returns has brought the store to `after` and one that raises
has changed nothing, and neither leaves a transaction open. -/
def AllOrNothing (m : Transact σ ε α) (stored after : σ) : Prop :=
  match m ⟨stored, none⟩ with
  | (.ok _, s) => s = ⟨after, none⟩
  | (.error _, s) => s = ⟨stored, none⟩

namespace AllOrNothing

variable {m : Transact σ ε α} {effect : σ → σ} {stored after : σ}

theorem answer_error (e : ε) : AllOrNothing (answer (.error e) : Transact σ ε α) stored after := rfl

@[simp] theorem mapError_iff {f : ε → ε'} :
    AllOrNothing (m.mapError f) stored after ↔ AllOrNothing m stored after := by
  unfold AllOrNothing Transact.mapError
  rcases m ⟨stored, none⟩ with ⟨_ | a, s⟩ <;> exact Iff.rfl

/-- What follows a computation only makes its result out of what was returned. -/
theorem bind_look_iff {g : α → Session σ → β} :
    AllOrNothing (m >>= fun a => look (g a)) stored after ↔ AllOrNothing m stored after := by
  unfold AllOrNothing
  rcases hrun : m ⟨stored, none⟩ with ⟨_ | a, s⟩
  · rw [bind_of_error hrun]
  · rw [bind_of_ok hrun, look]

/-- Closing an idle session. -/
theorem afterwards (h : AllOrNothing m stored after) :
    AllOrNothing (m.afterwards rollback) stored after := by
  unfold AllOrNothing Transact.afterwards at *
  rcases hrun : m ⟨stored, none⟩ with ⟨_ | a, s⟩ <;> rw [hrun] at h <;> simp only [h] <;> rfl

/-- A step before the first change. -/
theorem answer_bind {r : Except ε β} {f : β → Transact σ ε α}
    (h : ∀ b, r = .ok b → AllOrNothing (f b) stored after) :
    AllOrNothing (answer r >>= f) stored after := by
  unfold AllOrNothing
  cases hr : r with
  | error e => rw [bind_of_error (by rw [answer])]
  | ok b =>
    rw [bind_of_ok (by rw [answer])]
    exact h b hr

theorem statement {f : σ → Except ε (α × σ)} (h : ∀ a t, f stored = .ok (a, t) → t = after) :
    AllOrNothing (Transact.statement f) stored after := by
  unfold AllOrNothing
  rcases hrun : f stored with e | ⟨a, t⟩
  · rw [statement_of_error hrun]
  · rw [statement_of_ok hrun, h a t hrun]

/-- From a session in which nothing has been changed yet, a computation that stays in its
transaction, is committed at its end and rolled back if it raises. -/
theorem of_within {p : Session σ → Prop} {refuses : σ → Option ε} {s : Session σ}
    (h : Within p m effect) (hp : p s) (hstored : s.stored = stored) (hview : s.view = stored) :
    match (committing refuses m).onError rollback s with
    | (.ok _, s') => s' = ⟨effect stored, none⟩
    | (.error _, s') => s' = ⟨stored, none⟩ := by
  obtain ⟨hkept, hret⟩ := h s hp
  unfold onError committing
  rcases hrun : m s with ⟨e | a, s'⟩
  · rw [hrun] at hkept
    have hback : rollback s' = ⟨stored, none⟩ := by rw [← hstored, ← hkept]; rfl
    rw [bind_of_error hrun]
    exact hback
  · rw [hrun] at hkept hret
    have hback : rollback s' = ⟨stored, none⟩ := by rw [← hstored, ← hkept]; rfl
    obtain ⟨-, heffect⟩ := hret a rfl
    rw [bind_of_ok hrun]
    cases hrefused : refuses s'.view with
    | some e =>
      rw [bind_of_error (by rw [commit, hrefused])]
      exact hback
    | none =>
      have hdone : (⟨s'.view, none⟩ : Session σ) = ⟨effect stored, none⟩ := by rw [← hview, ← heffect]
      rw [bind_of_ok (by rw [commit, hrefused])]
      exact hdone

/-- A transaction that is opened explicitly. -/
theorem explicit {refuses : σ → Option ε} (h : Within IsOpen m effect) :
    AllOrNothing (begin >>= fun _ => (committing refuses m).onError rollback) stored
      (effect stored) :=
  of_within (s := ⟨stored, some stored⟩) h rfl rfl rfl

/-- One whose opening is guarded as well. -/
theorem explicit_guarded {refuses : σ → Option ε} (h : Within IsOpen m effect) :
    AllOrNothing ((begin >>= fun _ => committing refuses m).onError rollback) stored
      (effect stored) :=
  of_within (s := ⟨stored, some stored⟩) h rfl rfl rfl

/-- A transaction that the first statement opens. -/
theorem implicit {refuses : σ → Option ε} (h : Within (fun _ => True) m effect) :
    AllOrNothing ((committing refuses m).onError rollback) stored (effect stored) :=
  of_within (s := ⟨stored, none⟩) h trivial rfl rfl

/-- Without a handler, closing the connection drops what was not committed. -/
theorem implicit_closed {refuses : σ → Option ε} (h : Within (fun _ => True) m effect) :
    AllOrNothing ((committing refuses m).afterwards rollback) stored (effect stored) := by
  have hrun : AllOrNothing ((committing refuses m).onError rollback) stored (effect stored) :=
    implicit h
  unfold AllOrNothing onError Transact.afterwards at *
  rcases hm : committing refuses m ⟨stored, none⟩ with ⟨_ | a, s⟩
  · rw [hm] at hrun
    exact hrun
  · rw [hm] at hrun
    exact congrArg rollback hrun

end AllOrNothing

end Transact

end AltrStream.Foundations
