import Mathlib.Data.List.Basic

/-! # Computations that leave a trace

A traced computation is the list of its visible actions and what it returns or
raises. A crash cuts the list short. `Guarded` says that every action is allowed
by the actions before it.
-/
namespace AltrStream.Foundations

structure Traced (π ε α : Type) where
  events : List π
  result : Except ε α

namespace Traced

variable {π ε α β : Type}

/-- Perform an action. -/
def act (e : π) : Traced π ε Unit := ⟨[e], .ok ()⟩

def raise (e : ε) : Traced π ε α := ⟨[], .error e⟩

/-- Return or raise as an answer says. -/
def answer (r : Except ε α) : Traced π ε α := ⟨[], r⟩

protected def bind (m : Traced π ε α) (f : α → Traced π ε β) : Traced π ε β :=
  match m.result with
  | .ok a => ⟨m.events ++ (f a).events, (f a).result⟩
  | .error e => ⟨m.events, .error e⟩

instance : Monad (Traced π ε) where
  pure a := ⟨[], .ok a⟩
  bind := Traced.bind

/-- `try: ... except Exception`: the exception becomes a value. -/
def attempt (m : Traced π ε α) : Traced π ε (Except ε α) := ⟨m.events, .ok m.result⟩

/-- Raise unless a condition holds. -/
def ensure (p : Prop) [Decidable p] (e : ε) : Traced π ε Unit := if p then ⟨[], .ok ()⟩ else raise e

def runIf (p : Prop) [Decidable p] (m : Traced π ε Unit) : Traced π ε Unit := if p then m else ⟨[], .ok ()⟩

/-- The exception is wrapped into another one. -/
def mapError {ε' : Type} (f : ε → ε') (m : Traced π ε α) : Traced π ε' α :=
  ⟨m.events, m.result.mapError f⟩

@[simp] theorem events_pure (a : α) : (pure a : Traced π ε α).events = [] := rfl

@[simp] theorem result_pure (a : α) : (pure a : Traced π ε α).result = .ok a := rfl

@[simp] theorem events_act (e : π) : (act e : Traced π ε Unit).events = [e] := rfl

@[simp] theorem result_act (e : π) : (act e : Traced π ε Unit).result = .ok () := rfl

@[simp] theorem events_raise (e : ε) : (raise e : Traced π ε α).events = [] := rfl

@[simp] theorem result_raise (e : ε) : (raise e : Traced π ε α).result = .error e := rfl

@[simp] theorem events_answer (r : Except ε α) : (answer r : Traced π ε α).events = [] := rfl

@[simp] theorem result_answer (r : Except ε α) : (answer r : Traced π ε α).result = r := rfl

@[simp] theorem events_attempt (m : Traced π ε α) : m.attempt.events = m.events := rfl

@[simp] theorem result_attempt (m : Traced π ε α) : m.attempt.result = .ok m.result := rfl

@[simp] theorem events_mapError {ε' : Type} (f : ε → ε') (m : Traced π ε α) :
    (m.mapError f).events = m.events := rfl

@[simp] theorem result_mapError_eq_ok {ε' : Type} {f : ε → ε'} {m : Traced π ε α} {a : α} :
    (m.mapError f).result = .ok a ↔ m.result = .ok a := by
  cases h : m.result <;> simp [mapError, Except.mapError, h]

@[simp] theorem events_ensure (p : Prop) [Decidable p] (e : ε) :
    (ensure p e : Traced π ε Unit).events = [] := by
  unfold ensure
  split <;> rfl

@[simp] theorem result_ensure_eq_ok {p : Prop} [Decidable p] {e : ε} {u : Unit} :
    (ensure p e : Traced π ε Unit).result = .ok u ↔ p := by
  by_cases h : p <;> simp [ensure, h]

@[simp] theorem result_runIf_eq_ok {p : Prop} [Decidable p] {m : Traced π ε Unit} {u : Unit} :
    (runIf p m).result = .ok u ↔ (p → m.result = .ok u) := by
  by_cases h : p <;> simp [runIf, h]

theorem bind_of_ok {m : Traced π ε α} {a : α} (h : m.result = .ok a) (f : α → Traced π ε β) :
    m >>= f = ⟨m.events ++ (f a).events, (f a).result⟩ := by
  change Traced.bind m f = _
  rw [Traced.bind, h]

theorem bind_of_error {m : Traced π ε α} {e : ε} (h : m.result = .error e) (f : α → Traced π ε β) :
    m >>= f = ⟨m.events, .error e⟩ := by
  change Traced.bind m f = _
  rw [Traced.bind, h]

@[simp] theorem pure_bind (a : α) (f : α → Traced π ε β) : (pure a : Traced π ε α) >>= f = f a := rfl

theorem act_bind (e : π) (f : Unit → Traced π ε β) :
    act e >>= f = ⟨e :: (f ()).events, (f ()).result⟩ := rfl

@[simp] theorem mk_ok_bind (events : List π) (a : α) (f : α → Traced π ε β) :
    (⟨events, .ok a⟩ : Traced π ε α) >>= f = ⟨events ++ (f a).events, (f a).result⟩ := rfl

@[simp] theorem mk_error_bind (events : List π) (e : ε) (f : α → Traced π ε β) :
    (⟨events, .error e⟩ : Traced π ε α) >>= f = ⟨events, .error e⟩ := rfl

/-- What follows does nothing visible. -/
theorem events_bind_of_silent {m : Traced π ε α} {f : α → Traced π ε β} (h : ∀ a, (f a).events = []) :
    (m >>= f).events = m.events := by
  cases hm : m.result with
  | ok a => rw [bind_of_ok hm, h, List.append_nil]
  | error e => rw [bind_of_error hm]

theorem result_bind_eq_ok {m : Traced π ε α} {f : α → Traced π ε β} {b : β} :
    (m >>= f).result = .ok b ↔ ∃ a, m.result = .ok a ∧ (f a).result = .ok b := by
  cases h : m.result with
  | ok a => simp [bind_of_ok h]
  | error e => simp [bind_of_error h]

theorem mem_events_bind {m : Traced π ε α} {f : α → Traced π ε β} {e : π} :
    e ∈ (m >>= f).events ↔ e ∈ m.events ∨ ∃ a, m.result = .ok a ∧ e ∈ (f a).events := by
  cases h : m.result with
  | ok a => simp [bind_of_ok h]
  | error x => simp [bind_of_error h]

/-! ### What actions there are -/

/-- Every action satisfies a predicate. -/
def Only (p : π → Prop) (m : Traced π ε α) : Prop := ∀ e ∈ m.events, p e

namespace Only

variable {p : π → Prop}

theorem pure (a : α) : Only p (Pure.pure a : Traced π ε α) := by simp [Only]

theorem raise (e : ε) : Only p (Traced.raise e : Traced π ε α) := by simp [Only]

theorem answer (r : Except ε α) : Only p (Traced.answer r : Traced π ε α) := by simp [Only]

theorem act {e : π} (h : p e) : Only p (Traced.act e : Traced π ε Unit) := by simpa [Only] using h

theorem ensure (q : Prop) [Decidable q] (e : ε) : Only p (Traced.ensure q e : Traced π ε Unit) := by
  simp [Only]

theorem runIf {q : Prop} [Decidable q] {m : Traced π ε Unit} (h : q → Only p m) :
    Only p (Traced.runIf q m) := by
  by_cases hq : q
  · simpa [Traced.runIf, hq] using h hq
  · simp [Traced.runIf, hq, Only]

theorem bind {m : Traced π ε α} {f : α → Traced π ε β} (hm : Only p m)
    (hf : ∀ a, m.result = .ok a → Only p (f a)) : Only p (m >>= f) := by
  cases h : m.result with
  | ok a =>
    rw [bind_of_ok h]
    exact List.forall_mem_append.2 ⟨hm, hf a h⟩
  | error e =>
    rw [bind_of_error h]
    exact hm

theorem mapError {ε' : Type} {f : ε → ε'} {m : Traced π ε α} (h : Only p m) : Only p (m.mapError f) := h

theorem attempt {m : Traced π ε α} (h : Only p m) : Only p m.attempt := h

theorem mem_bind {m : Traced π ε α} {f : α → Traced π ε β} {e : π} (hm : Only p m) (he : ¬ p e) :
    e ∈ (m >>= f).events ↔ ∃ a, m.result = .ok a ∧ e ∈ (f a).events := by
  rw [mem_events_bind, or_iff_right fun hmem => he (hm e hmem)]

end Only

/-! ### What every action is allowed by -/

/-- Every action of the list is allowed by the actions before it. -/
def AllAllowed (allowed : List π → π → Prop) (before : List π) (events : List π) : Prop :=
  ∀ pre e post, events = pre ++ e :: post → allowed (before ++ pre) e

def Guarded (allowed : List π → π → Prop) (before : List π) (m : Traced π ε α) : Prop :=
  AllAllowed allowed before m.events

section
variable {allowed : List π → π → Prop} {before : List π}

theorem allAllowed_nil : AllAllowed allowed before [] := by
  intro pre e post h
  simp at h

theorem allAllowed_cons {e : π} {events : List π} (he : allowed before e)
    (h : AllAllowed allowed (before ++ [e]) events) : AllAllowed allowed before (e :: events) := by
  intro pre e' post heq
  cases pre with
  | nil =>
    obtain ⟨rfl, -⟩ := List.cons.inj heq
    simpa using he
  | cons x pre =>
    obtain ⟨rfl, htail⟩ := List.cons.inj heq
    simpa using h pre e' post htail

theorem allAllowed_append {events events' : List π} (h : AllAllowed allowed before events)
    (h' : AllAllowed allowed (before ++ events) events') :
    AllAllowed allowed before (events ++ events') := by
  induction events generalizing before with
  | nil => simpa using h'
  | cons e events ih =>
    refine allAllowed_cons (by simpa using h [] e events rfl) (ih ?_ (by simpa using h'))
    intro pre e' post heq
    simpa using h (e :: pre) e' post (by rw [heq, List.cons_append])

/-- An action that none of its kind may precede happens at most once. -/
theorem countP_le_one {p : π → Bool} {events : List π}
    (h : AllAllowed (fun before e => p e = true → ∀ x ∈ before, p x = false) [] events) :
    events.countP p ≤ 1 := by
  by_contra hmany
  obtain ⟨e, he, hp⟩ := List.countP_pos_iff.1 (show 0 < events.countP p by omega)
  obtain ⟨pre, post, rfl⟩ := List.append_of_mem he
  have hpre : pre.countP p = 0 := by
    refine List.countP_eq_zero.2 fun x hx => ?_
    simpa using h pre e post rfl hp x (by simpa using hx)
  have hpost : post.countP p = 0 := by
    refine List.countP_eq_zero.2 fun x hx hpx => ?_
    obtain ⟨mid, rest, rfl⟩ := List.append_of_mem hx
    have hclash := h (pre ++ e :: mid) x rest (by simp) hpx e (by simp)
    rw [hp] at hclash
    cases hclash
  simp only [List.countP_append, List.countP_cons, hpre, hpost, hp, if_true] at hmany
  omega

namespace Guarded

theorem pure (a : α) : Guarded allowed before (Pure.pure a : Traced π ε α) := allAllowed_nil

theorem raise (e : ε) : Guarded allowed before (Traced.raise e : Traced π ε α) := allAllowed_nil

theorem answer (r : Except ε α) : Guarded allowed before (Traced.answer r : Traced π ε α) :=
  allAllowed_nil

theorem act {e : π} (h : allowed before e) : Guarded allowed before (Traced.act e : Traced π ε Unit) :=
  allAllowed_cons h allAllowed_nil

theorem ensure (q : Prop) [Decidable q] (e : ε) :
    Guarded allowed before (Traced.ensure q e : Traced π ε Unit) := by
  rw [Guarded, events_ensure]
  exact allAllowed_nil

theorem attempt {m : Traced π ε α} (h : Guarded allowed before m) :
    Guarded allowed before m.attempt := h

/-- Actions that are allowed at any time. -/
theorem of_only {p : π → Prop} {m : Traced π ε α} (hm : Only p m)
    (h : ∀ before e, p e → allowed before e) : Guarded allowed before m := by
  intro pre e post heq
  exact h _ e (hm e (heq ▸ List.mem_append_right _ List.mem_cons_self))

/-- What follows may use what was done and returned. -/
theorem bind {m : Traced π ε α} {f : α → Traced π ε β} (hm : Guarded allowed before m)
    (hf : ∀ a, m.result = .ok a → Guarded allowed (before ++ m.events) (f a)) :
    Guarded allowed before (m >>= f) := by
  cases h : m.result with
  | ok a =>
    rw [bind_of_ok h]
    exact allAllowed_append hm (hf a h)
  | error e =>
    rw [bind_of_error h]
    exact hm

end Guarded

end

end Traced

end AltrStream.Foundations

/-! ## Traced computations beside a state

The actions of a traced computation drive a state that is no part of it: a phase, or
what a reader of the trace knows. A computation walks from a state if every action
fits the state that it meets; what holds of the state at the end is told for what it
returns and for what it raises.
-/
namespace AltrStream.Foundations.Traced

variable {π ε σ α β : Type} (step : σ → π → σ) (fits : σ → π → Prop)

/-- Every action fits the state that it meets. -/
def AllFit : σ → List π → Prop
  | _, [] => True
  | s, e :: events => fits s e ∧ AllFit (step s e) events

structure Walks (s : σ) (m : Traced π ε α) (returns : α → σ → Prop) (raises : ε → σ → Prop) :
    Prop where
  fit : AllFit step fits s m.events
  returns : ∀ a, m.result = .ok a → returns a (m.events.foldl step s)
  raises : ∀ e, m.result = .error e → raises e (m.events.foldl step s)

section
variable {step : σ → π → σ} {fits : σ → π → Prop}

theorem allFit_append {s : σ} {events events' : List π} :
    AllFit step fits s (events ++ events') ↔
      AllFit step fits s events ∧ AllFit step fits (events.foldl step s) events' := by
  induction events generalizing s with
  | nil => exact ⟨fun h => ⟨trivial, h⟩, And.right⟩
  | cons e events ih => simp only [List.cons_append, AllFit, ih, List.foldl_cons, and_assoc]

/-- An action fits the state that the actions before it lead to. -/
theorem fits_of_allFit {s : σ} {pre post : List π} {e : π}
    (h : AllFit step fits s (pre ++ e :: post)) : fits (pre.foldl step s) e :=
  (allFit_append.1 h).2.1

/-- Actions that leave the state where it is. -/
theorem allFit_of_still {s : σ} {events : List π} (h : ∀ e ∈ events, step s e = s ∧ fits s e) :
    AllFit step fits s events ∧ events.foldl step s = s := by
  induction events with
  | nil => exact ⟨trivial, rfl⟩
  | cons e events ih =>
    obtain ⟨⟨hstill, hfits⟩, hrest⟩ := List.forall_mem_cons.1 h
    rw [AllFit, List.foldl_cons, hstill]
    exact ⟨⟨hfits, (ih hrest).1⟩, (ih hrest).2⟩

namespace Walks

variable {s : σ} {returns : α → σ → Prop} {raises : ε → σ → Prop}

theorem pure {a : α} (h : returns a s) : Walks step fits s (Pure.pure a) returns raises where
  fit := trivial
  returns _ ha := Except.ok.inj ha ▸ h
  raises _ he := nomatch he

theorem raise {e : ε} (h : raises e s) : Walks step fits s (Traced.raise e) returns raises where
  fit := trivial
  returns _ ha := nomatch ha
  raises _ he := Except.error.inj he ▸ h

theorem answer {r : Except ε α} (hreturns : ∀ a, r = .ok a → returns a s)
    (hraises : ∀ e, r = .error e → raises e s) :
    Walks step fits s (Traced.answer r) returns raises where
  fit := trivial
  returns := hreturns
  raises := hraises

theorem act {e : π} {returns : Unit → σ → Prop} (hfits : fits s e) (h : returns () (step s e)) :
    Walks step fits s (Traced.act e) returns raises where
  fit := ⟨hfits, trivial⟩
  returns _ _ := h
  raises _ he := nomatch he

theorem of_still {m : Traced π ε α} (h : ∀ e ∈ m.events, step s e = s ∧ fits s e)
    (hreturns : ∀ a, m.result = .ok a → returns a s) (hraises : ∀ e, m.result = .error e → raises e s) :
    Walks step fits s m returns raises := by
  obtain ⟨hfit, hstill⟩ := allFit_of_still h
  refine ⟨hfit, ?_, ?_⟩ <;> rw [hstill]
  · exact hreturns
  · exact hraises

/-- What follows starts from the state that was reached. -/
theorem bind {m : Traced π ε α} {f : α → Traced π ε β} {between : α → σ → Prop}
    {returns : β → σ → Prop} (hm : Walks step fits s m between raises)
    (hf : ∀ a t, m.result = .ok a → between a t → Walks step fits t (f a) returns raises) :
    Walks step fits s (m >>= f) returns raises := by
  cases hresult : m.result with
  | ok a =>
    have hrest := hf a _ hresult (hm.returns a hresult)
    rw [bind_of_ok hresult]
    refine ⟨allFit_append.2 ⟨hm.fit, hrest.fit⟩, ?_, ?_⟩ <;> rw [List.foldl_append]
    · exact hrest.returns
    · exact hrest.raises
  | error e =>
    rw [bind_of_error hresult]
    refine ⟨hm.fit, fun _ h => (nomatch h), fun e' he' => ?_⟩
    exact hm.raises e' (hresult.trans (congrArg _ (Except.error.inj he')))

theorem mono {m : Traced π ε α} {returns' : α → σ → Prop} (hm : Walks step fits s m returns raises)
    (h : ∀ a t, m.result = .ok a → returns a t → returns' a t) :
    Walks step fits s m returns' raises :=
  ⟨hm.fit, fun a ha => h a _ ha (hm.returns a ha), hm.raises⟩

end Walks

end

end AltrStream.Foundations.Traced
