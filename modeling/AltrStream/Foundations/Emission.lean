import Mathlib.Data.List.Infix
import Mathlib.Data.Nat.Notation

/-! # Computations that append to a log

`Emit` is a computation that may raise an exception and that can only append
to a log, as a compiler does with the parameters of the statement it writes.
`Emits m post` says what holds of the result in every log that extends the one
reached, `SucceedsIff m p` says that `m` raises exactly when `p` fails.
-/
namespace AltrStream.Foundations

abbrev Emit (ε π : Type) (α : Type) := StateT (List π) (Except ε) α

section
variable {ε π α β : Type}

/-- Append an entry and return its position, counted from one. -/
def emit (p : π) : Emit ε π ℕ := fun log => .ok (log.length + 1, log ++ [p])

/-- The entry at a position counted from one. -/
def entryAt (log : List π) : ℕ → Option π
  | 0 => none
  | i + 1 => log[i]?

/-- What a successful run of a sequence has gone through. -/
theorem run_bind_eq_ok {m : Emit ε π α} {f : α → Emit ε π β} {log log' : List π} {b : β} :
    (m >>= f) log = .ok (b, log') ↔
      ∃ a log₁, m log = .ok (a, log₁) ∧ f a log₁ = .ok (b, log') := by
  have hrun : (m >>= f) log = Except.bind (m log) fun r => f r.1 r.2 := rfl
  rw [hrun]
  cases m log with
  | error e => simp [Except.bind]
  | ok r => simp [Except.bind, Prod.ext_iff, and_assoc]

theorem run_pure_eq_ok {a b : α} {log log' : List π} :
    (Pure.pure a : Emit ε π α) log = .ok (b, log') ↔ a = b ∧ log = log' := by
  have hrun : (Pure.pure a : Emit ε π α) log = .ok (a, log) := rfl
  rw [hrun, Except.ok.injEq, Prod.mk.injEq]

def Emits (m : Emit ε π α) (post : List π → α → Prop) : Prop :=
  ∀ log a log', m log = .ok (a, log') → log <+: log' ∧ ∀ full, log' <+: full → post full a

namespace Emits

theorem pure {a : α} {post : List π → α → Prop} (h : ∀ full, post full a) :
    Emits (ε := ε) (Pure.pure a) post := by
  intro log b log' hrun
  obtain ⟨rfl, rfl⟩ := Prod.mk.inj (Except.ok.inj hrun)
  exact ⟨List.prefix_rfl, fun full _ => h full⟩

theorem throw {e : ε} {post : List π → α → Prop} :
    Emits (MonadExcept.throw e : Emit ε π α) post := by
  intro log b log' hrun
  cases hrun

theorem bind {m : Emit ε π α} {f : α → Emit ε π β} {mid : List π → α → Prop}
    {post : List π → β → Prop} (hm : Emits m mid)
    (hf : ∀ a, Emits (f a) fun full b => mid full a → post full b) : Emits (m >>= f) post := by
  intro log b log' hrun
  have hrun' : (match m log with
      | .ok (a, log₁) => f a log₁
      | .error e => .error e) = .ok (b, log') := by
    rw [← hrun]
    change _ = Except.bind (m log) _
    cases m log <;> rfl
  cases hm' : m log with
  | error e => simp [hm'] at hrun'
  | ok r =>
    obtain ⟨a, log₁⟩ := r
    simp only [hm'] at hrun'
    obtain ⟨hpre, hmid⟩ := hm log a log₁ hm'
    obtain ⟨hpre', hpost⟩ := hf a log₁ b log' hrun'
    exact ⟨hpre.trans hpre', fun full hfull => hpost full hfull (hmid full (hpre'.trans hfull))⟩

theorem ite {p : Prop} [Decidable p] {m₁ m₂ : Emit ε π α} {post : List π → α → Prop}
    (h₁ : p → Emits m₁ post) (h₂ : ¬p → Emits m₂ post) : Emits (if p then m₁ else m₂) post := by
  by_cases h : p
  · rw [if_pos h]
    exact h₁ h
  · rw [if_neg h]
    exact h₂ h

theorem mono {m : Emit ε π α} {mid post : List π → α → Prop} (hm : Emits m mid)
    (h : ∀ full a, mid full a → post full a) : Emits m post := by
  intro log a log' hrun
  obtain ⟨hpre, hmid⟩ := hm log a log' hrun
  exact ⟨hpre, fun full hfull => h full a (hmid full hfull)⟩

theorem emit (p : π) :
    Emits (Foundations.emit p : Emit ε π ℕ) fun full i => entryAt full i = some p := by
  intro log i log' hrun
  obtain ⟨rfl, rfl⟩ := Prod.mk.inj (Except.ok.inj hrun)
  refine ⟨List.prefix_append _ _, ?_⟩
  rintro _ ⟨rest, rfl⟩
  simp [entryAt]

theorem mapM {f : α → Emit ε π β} {post : List π → α → β → Prop} {l : List α}
    (h : ∀ a ∈ l, Emits (f a) fun full b => post full a b) :
    Emits (l.mapM f) fun full bs => List.Forall₂ (post full) l bs := by
  induction l with
  | nil => exact pure fun _ => .nil
  | cons a l ih =>
    rw [List.mapM_cons]
    refine bind (h a (by simp)) fun b => ?_
    refine bind (ih fun a ha => h a (List.mem_cons_of_mem _ ha)) fun bs => ?_
    exact pure fun full hbs hb => .cons hb hbs

end Emits

def SucceedsIff (m : Emit ε π α) (p : Prop) : Prop :=
  ∀ log, (∃ r, m log = .ok r) ↔ p

namespace SucceedsIff

theorem pure (a : α) : SucceedsIff (Pure.pure a : Emit ε π α) True :=
  fun log => ⟨fun _ => trivial, fun _ => ⟨(a, log), rfl⟩⟩

theorem throw (e : ε) : SucceedsIff (MonadExcept.throw e : Emit ε π α) False :=
  fun _ => ⟨fun ⟨_, h⟩ => (nomatch h), False.elim⟩

theorem emit (p : π) : SucceedsIff (Foundations.emit p : Emit ε π ℕ) True :=
  fun _ => ⟨fun _ => trivial, fun _ => ⟨_, rfl⟩⟩

theorem congr {m : Emit ε π α} {p q : Prop} (h : SucceedsIff m p) (hpq : p ↔ q) :
    SucceedsIff m q := fun log => (h log).trans hpq

theorem bind {m : Emit ε π α} {f : α → Emit ε π β} {p q : Prop} (hm : SucceedsIff m p)
    (hf : ∀ a, SucceedsIff (f a) q) : SucceedsIff (m >>= f) (p ∧ q) := by
  intro log
  have hrun : (m >>= f) log = Except.bind (m log) fun r => f r.1 r.2 := rfl
  rw [hrun, ← hm log]
  cases hm' : m log with
  | error e => simp [Except.bind]
  | ok r => simpa [Except.bind] using hf r.1 r.2

theorem mapM {f : α → Emit ε π β} {p : α → Prop} {l : List α}
    (h : ∀ a ∈ l, SucceedsIff (f a) (p a)) : SucceedsIff (l.mapM f) (∀ a ∈ l, p a) := by
  induction l with
  | nil => exact (pure _).congr (by simp)
  | cons a l ih =>
    rw [List.mapM_cons]
    have htail := ih fun a ha => h a (List.mem_cons_of_mem _ ha)
    exact (bind (h a (by simp)) fun b => bind htail fun bs => pure (b :: bs)).congr (by simp)

/-- A computation that never raises. -/
theorem total_bind {m : Emit ε π α} {f : α → Emit ε π β} (hm : SucceedsIff m True)
    (hf : ∀ a, SucceedsIff (f a) True) : SucceedsIff (m >>= f) True :=
  (bind hm hf).congr (by simp)

theorem total_mapM {f : α → Emit ε π β} {l : List α} (h : ∀ a ∈ l, SucceedsIff (f a) True) :
    SucceedsIff (l.mapM f) True :=
  (mapM h).congr (by simp)

/-- A step that never raises may follow. -/
theorem bind_total {m : Emit ε π α} {f : α → Emit ε π β} {p : Prop} (hm : SucceedsIff m p)
    (hf : ∀ a, SucceedsIff (f a) True) : SucceedsIff (m >>= f) p :=
  (bind hm hf).congr (by simp)

theorem total_then {m : Emit ε π α} {f : α → Emit ε π β} {p : Prop} (hm : SucceedsIff m True)
    (hf : ∀ a, SucceedsIff (f a) p) : SucceedsIff (m >>= f) p :=
  (bind hm hf).congr (by simp)

end SucceedsIff

end

/-! ## Numbered marks

A place of a text either refers to an entry of the log or needs none. The marks of
a list of places refer to the log entries one after another, in the order of the
places. `Writes m places rel` says that a computation appends exactly the entries
of the places, and that their marks are in `rel` to what it returns.
-/

/-- What a kind of place has for an entry of the log and how its mark is written. -/
structure Marking (υ π χ : Type) where
  entry : υ → Option π
  mark : υ → ℕ → χ

namespace Marking
variable {υ π χ : Type} (mk : Marking υ π χ)

/-- The log entries of the places. -/
def entries (us : List υ) : List π := us.filterMap mk.entry

/-- The marks of the places on a log that already has `n` entries. -/
def marks : ℕ → List υ → List χ
  | _, [] => []
  | n, u :: us =>
    match mk.entry u with
    | some _ => mk.mark u (n + 1) :: marks (n + 1) us
    | none => mk.mark u n :: marks n us

@[simp] theorem entries_nil : mk.entries [] = [] := rfl

@[simp] theorem marks_nil (n : ℕ) : mk.marks n [] = [] := rfl

theorem entries_append (us vs : List υ) : mk.entries (us ++ vs) = mk.entries us ++ mk.entries vs :=
  List.filterMap_append

theorem marks_append (n : ℕ) (us vs : List υ) :
    mk.marks n (us ++ vs) = mk.marks n us ++ mk.marks (n + (mk.entries us).length) vs := by
  induction us generalizing n with
  | nil => rfl
  | cons u us ih =>
    rw [List.cons_append, marks, marks]
    cases hu : mk.entry u with
    | none => simp [ih, entries, hu]
    | some p => simp [ih, entries, hu, Nat.add_assoc, Nat.add_comm 1]

@[simp] theorem length_marks (n : ℕ) (us : List υ) : (mk.marks n us).length = us.length := by
  induction us generalizing n with
  | nil => rfl
  | cons u us ih =>
    rw [marks]
    split <;> simp [ih]

/-- The positions that the marks refer to are those of the entries, in order. -/
theorem positions_marks {position : χ → Option ℕ}
    (hmark : ∀ u n, position (mk.mark u n) = if (mk.entry u).isSome then some n else none)
    (n : ℕ) (us : List υ) :
    (mk.marks n us).filterMap position = List.range' (n + 1) (mk.entries us).length := by
  induction us generalizing n with
  | nil => rfl
  | cons u us ih =>
    rw [marks]
    cases hu : mk.entry u with
    | none => simp [hmark, hu, ih, entries]
    | some p => simp [hmark, hu, ih, entries, List.range'_succ]

/-- A relation between places and their marks, given that every mark finds its entry in the
log, holds throughout exactly if it holds of every place. -/
theorem forall₂_marks_iff {full : List π} {rel : υ → χ → Prop} {good : υ → Prop}
    (h : ∀ u n, (∀ p, mk.entry u = some p → entryAt full n = some p) →
      (rel u (mk.mark u n) ↔ good u))
    {n : ℕ} {us : List υ} (before : List π) (hn : before.length = n)
    (hfull : before ++ mk.entries us <+: full) :
    List.Forall₂ rel us (mk.marks n us) ↔ ∀ u ∈ us, good u := by
  induction us generalizing n before with
  | nil => simp
  | cons u us ih =>
    rw [marks, List.forall_mem_cons]
    cases hu : mk.entry u with
    | none =>
      rw [entries, List.filterMap_cons_none hu] at hfull
      rw [List.forall₂_cons, h u n fun p hp => by (rw [hu] at hp; cases hp), ih _ hn hfull]
    | some p =>
      rw [entries, List.filterMap_cons_some hu, List.append_cons] at hfull
      have hentry : entryAt full (n + 1) = some p := by
        obtain ⟨rest, rfl⟩ := hfull
        simp [entryAt, ← hn]
      rw [List.forall₂_cons, h u (n + 1) fun q hq => by rw [hentry, ← hu, hq],
        ih (n := n + 1) _ (by simp [hn]) hfull]

end Marking

section
variable {ε υ π χ α β γ : Type} (mk : Marking υ π χ)

/-- A run appends the entries of the places, and returns something in `rel` to their marks. -/
def Writes (m : Emit ε π α) (us : List υ) (rel : List χ → α → Prop) : Prop :=
  ∀ log a log', m log = .ok (a, log') →
    log' = log ++ mk.entries us ∧ rel (mk.marks log.length us) a

namespace Writes
variable {mk} {us vs : List υ} {rel : List χ → α → Prop}

theorem pure {a : α} (h : rel [] a) : Writes mk (Pure.pure a : Emit ε π α) [] rel := by
  intro log b log' hrun
  obtain ⟨rfl, rfl⟩ := run_pure_eq_ok.1 hrun
  exact ⟨by simp, h⟩

theorem throw {e : ε} : Writes mk (MonadExcept.throw e : Emit ε π α) us rel := by
  intro log b log' hrun
  cases hrun

theorem bind {m : Emit ε π α} {f : α → Emit ε π β} {rel' : List χ → β → Prop}
    (hm : Writes mk m us rel)
    (hf : ∀ a, Writes mk (f a) vs fun ys b => ∀ xs, rel xs a → rel' (xs ++ ys) b) :
    Writes mk (m >>= f) (us ++ vs) rel' := by
  intro log b log' hrun
  obtain ⟨a, log₁, hm', hf'⟩ := run_bind_eq_ok.1 hrun
  obtain ⟨rfl, hrel⟩ := hm log a log₁ hm'
  obtain ⟨rfl, hrel'⟩ := hf a _ b log' hf'
  refine ⟨by rw [Marking.entries_append, List.append_assoc], ?_⟩
  rw [Marking.marks_append]
  rw [List.length_append] at hrel'
  exact hrel' _ hrel

/-- The last step only puts a result together. -/
theorem bind_pure {m : Emit ε π α} {f : α → β} {rel' : List χ → β → Prop}
    (hm : Writes mk m us rel) (h : ∀ a xs, rel xs a → rel' xs (f a)) :
    Writes mk (m >>= fun a => Pure.pure (f a)) us rel' := by
  have hboth : Writes mk (m >>= fun a => Pure.pure (f a)) (us ++ []) rel' :=
    bind hm fun a => pure fun xs hxs => by simpa using h a xs hxs
  simpa using hboth

theorem mono {rel' : List χ → α → Prop} {m : Emit ε π α} (hm : Writes mk m us rel)
    (h : ∀ xs a, rel xs a → rel' xs a) : Writes mk m us rel' := by
  intro log a log' hrun
  obtain ⟨hlog, hrel⟩ := hm log a log' hrun
  exact ⟨hlog, h _ _ hrel⟩

theorem ite {p : Prop} [Decidable p] {m₁ m₂ : Emit ε π α} (h₁ : p → Writes mk m₁ us rel)
    (h₂ : ¬p → Writes mk m₂ us rel) : Writes mk (if p then m₁ else m₂) us rel := by
  by_cases h : p
  · rw [if_pos h]
    exact h₁ h
  · rw [if_neg h]
    exact h₂ h

/-- A traversal writes the places of its elements one after another. -/
theorem mapM {f : α → Emit ε π β} {marks : β → List χ} {places : α → List υ} {l : List α}
    (h : ∀ a ∈ l, Writes mk (f a) (places a) fun xs b => marks b = xs) :
    Writes mk (l.mapM f) (l.flatMap places) fun xs bs => bs.flatMap marks = xs := by
  induction l with
  | nil => exact pure rfl
  | cons a l ih =>
    rw [List.mapM_cons, List.flatMap_cons]
    refine bind (h a (by simp)) fun b => ?_
    refine bind_pure (ih fun x hx => h x (List.mem_cons_of_mem _ hx)) fun bs ys hys xs hxs => ?_
    rw [List.flatMap_cons, hxs, hys]

/-- One entry and its position. -/
theorem emit {u : υ} {p : π} (hu : mk.entry u = some p) :
    Writes mk (Foundations.emit p : Emit ε π ℕ) [u] fun xs i => xs = [mk.mark u i] := by
  intro log i log' hrun
  obtain ⟨rfl, rfl⟩ := Prod.mk.inj (Except.ok.inj hrun)
  simp [Marking.entries, Marking.marks, hu]

end Writes

end

/-! ## Postconditions of stateful computations

`Returns m post` says that every value a computation in `StateT σ (Except ε)`
returns satisfies `post`, from whatever state it starts.
-/
variable {σ ε α β : Type}

def Returns (m : StateT σ (Except ε) α) (post : α → Prop) : Prop :=
  ∀ s a s', m s = .ok (a, s') → post a

namespace Returns
variable {m : StateT σ (Except ε) α} {post : α → Prop}

theorem pure {a : α} (h : post a) : Returns (Pure.pure a : StateT σ (Except ε) α) post := by
  intro s b s' hrun
  cases hrun
  exact h

theorem throw {e : ε} : Returns (MonadExcept.throw e : StateT σ (Except ε) α) post := by
  intro s b s' hrun
  cases hrun

/-- Nothing is claimed of the value. -/
theorem any : Returns m fun _ => True := fun _ _ _ _ => trivial

theorem bind {f : α → StateT σ (Except ε) β} {mid : α → Prop} {post : β → Prop}
    (hm : Returns m mid) (hf : ∀ a, mid a → Returns (f a) post) : Returns (m >>= f) post := by
  intro s b s' hrun
  have hrun' : Except.bind (m s) (fun r => f r.1 r.2) = .ok (b, s') := hrun
  cases hm' : m s with
  | error e => simp [hm', Except.bind] at hrun'
  | ok r =>
    rw [hm'] at hrun'
    exact hf r.1 (hm s r.1 r.2 hm') r.2 b s' hrun'

/-- The first computation only prepares the state. -/
theorem after {f : α → StateT σ (Except ε) β} {post : β → Prop}
    (hf : ∀ a, Returns (f a) post) : Returns (m >>= f) post :=
  bind any fun a _ => hf a

theorem ite {p : Prop} [Decidable p] {m₁ m₂ : StateT σ (Except ε) α}
    (h₁ : p → Returns m₁ post) (h₂ : ¬p → Returns m₂ post) :
    Returns (if p then m₁ else m₂) post := by
  by_cases h : p
  · rw [if_pos h]
    exact h₁ h
  · rw [if_neg h]
    exact h₂ h

/-- Every element that a traversal returns. -/
theorem mapM {f : α → StateT σ (Except ε) β} {post : β → Prop} {l : List α}
    (h : ∀ a ∈ l, Returns (f a) post) : Returns (l.mapM f) fun bs => ∀ b ∈ bs, post b := by
  induction l with
  | nil => exact pure fun _ hb => nomatch hb
  | cons a l ih =>
    rw [List.mapM_cons]
    refine bind (h a List.mem_cons_self) fun b hb => ?_
    refine bind (ih fun x hx => h x (List.mem_cons_of_mem _ hx)) fun bs hbs => pure ?_
    intro x hx
    cases hx with
    | head => exact hb
    | tail _ hx => exact hbs x hx

theorem mono {post' : α → Prop} (hm : Returns m post) (h : ∀ a, post a → post' a) :
    Returns m post' := fun s a s' hrun => h a (hm s a s' hrun)

theorem map {f : α → β} {post : β → Prop} (hm : Returns m fun a => post (f a)) :
    Returns (f <$> m) post := by
  intro s b s' hrun
  have hrun' : Except.bind (m s) (fun r => .ok (f r.1, r.2)) = .ok (b, s') := hrun
  cases hm' : m s with
  | error e => simp [hm', Except.bind] at hrun'
  | ok r =>
    simp only [hm', Except.bind, Except.ok.injEq, Prod.mk.injEq] at hrun'
    rw [← hrun'.1]
    exact hm s r.1 r.2 hm'

theorem and {post' : α → Prop} (hm : Returns m post) (hm' : Returns m post') :
    Returns m fun a => post a ∧ post' a := fun s a s' hrun => ⟨hm s a s' hrun, hm' s a s' hrun⟩

/-- A traversal of something returns something. -/
theorem mapM_ne_nil {f : α → StateT σ (Except ε) β} {l : List α} (hne : l ≠ []) :
    Returns (l.mapM f) fun bs => bs ≠ [] := by
  cases l with
  | nil => exact absurd rfl hne
  | cons a l =>
    rw [List.mapM_cons]
    exact after fun b => after fun bs => pure (List.cons_ne_nil b bs)

end Returns

end AltrStream.Foundations
