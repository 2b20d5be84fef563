import Mathlib.Data.List.Forall2
import Mathlib.Data.List.Perm.Basic

/-! # Checks that raise

Rules for computations in `Except`: when a sequence of checks succeeds, and what
a successful traversal of a list returns.
-/
namespace AltrStream.Foundations
variable {ε α β : Type}

/-- `if p: raise e` -/
def raiseIf (p : Prop) [Decidable p] (e : ε) : Except ε Unit := if p then .error e else .ok ()

@[simp] theorem raiseIf_eq_ok {p : Prop} [Decidable p] {e : ε} {x : Unit} :
    raiseIf p e = .ok x ↔ ¬p := by
  unfold raiseIf
  split <;> simp [*]

theorem bind_eq_ok {x : Except ε α} {f : α → Except ε β} {b : β} :
    (x >>= f) = .ok b ↔ ∃ a, x = .ok a ∧ f a = .ok b := by
  cases x with
  | error e => exact ⟨fun h => (nomatch h), fun ⟨_, h, _⟩ => (nomatch h)⟩
  | ok a =>
    constructor
    · exact fun h => ⟨a, rfl, h⟩
    · rintro ⟨a', ha, h⟩
      cases ha
      exact h

/-- A check returns nothing of interest. -/
theorem check_bind_eq_ok {x : Except ε Unit} {f : Unit → Except ε β} {b : β} :
    (x >>= f) = .ok b ↔ x = .ok () ∧ f () = .ok b := by
  rw [bind_eq_ok]
  exact ⟨fun ⟨_, h⟩ => h, fun h => ⟨(), h⟩⟩

/-- A sequence raises no error that none of its steps raises. -/
theorem bind_ne_error {x : Except ε α} {f : α → Except ε β} {e : ε} (hx : x ≠ .error e)
    (hf : ∀ a, x = .ok a → f a ≠ .error e) : (x >>= f) ≠ .error e := by
  cases x with
  | error e' =>
    intro h
    exact hx (congrArg Except.error (Except.error.inj h))
  | ok a => exact hf a rfl

theorem map_eq_ok {x : Except ε α} {f : α → β} {b : β} :
    f <$> x = .ok b ↔ ∃ a, x = .ok a ∧ f a = b := by
  cases x with
  | error e => exact ⟨fun h => (nomatch h), fun ⟨_, h, _⟩ => (nomatch h)⟩
  | ok a =>
    constructor
    · intro h
      exact ⟨a, rfl, Except.ok.inj h⟩
    · rintro ⟨a', ha, rfl⟩
      cases ha
      rfl

theorem mapError_eq_ok {ε' : Type} {x : Except ε α} {f : ε → ε'} {a : α} :
    x.mapError f = .ok a ↔ x = .ok a := by
  cases x <;> simp [Except.mapError]

theorem map_succeeds {x : Except ε α} {f : α → β} :
    (∃ b, f <$> x = .ok b) ↔ ∃ a, x = .ok a := by
  simp only [map_eq_ok]
  exact ⟨fun ⟨_, a, ha, _⟩ => ⟨a, ha⟩, fun ⟨a, ha⟩ => ⟨_, a, ha, rfl⟩⟩

@[simp] theorem pure_eq_ok {a b : α} : (pure a : Except ε α) = .ok b ↔ a = b :=
  ⟨fun h => Except.ok.inj h, fun h => congrArg Except.ok h⟩

/-- A list of checks, in order. -/
def checkAll (check : α → Except ε Unit) : List α → Except ε Unit
  | [] => .ok ()
  | a :: rest => do
    check a
    checkAll check rest

theorem checkAll_eq_ok {check : α → Except ε Unit} {l : List α} {x : Unit} :
    checkAll check l = .ok x ↔ ∀ a ∈ l, check a = .ok () := by
  induction l with
  | nil => simp [checkAll]
  | cons a rest ih =>
    simp only [checkAll, bind_eq_ok, ih, List.forall_mem_cons]
    exact ⟨fun ⟨_, h, hrest⟩ => ⟨h, hrest⟩, fun ⟨h, hrest⟩ => ⟨(), h, hrest⟩⟩

theorem mapM_eq_ok {f : α → Except ε β} {l : List α} {bs : List β} :
    l.mapM f = .ok bs ↔ List.Forall₂ (fun a b => f a = .ok b) l bs := by
  induction l generalizing bs with
  | nil => cases bs <;> simp
  | cons a rest ih =>
    rw [List.mapM_cons]
    simp only [bind_eq_ok, pure_eq_ok, ih]
    constructor
    · rintro ⟨b, hb, bs', hbs, rfl⟩
      exact .cons hb hbs
    · intro h
      cases h with
      | cons hb hbs => exact ⟨_, hb, _, hbs, rfl⟩

theorem mapM_succeeds {f : α → Except ε β} {l : List α} (h : ∀ a ∈ l, ∃ b, f a = .ok b) :
    ∃ bs, l.mapM f = .ok bs := by
  induction l with
  | nil => exact ⟨[], rfl⟩
  | cons a rest ih =>
    obtain ⟨b, hb⟩ := h a List.mem_cons_self
    obtain ⟨bs, hbs⟩ := ih fun a ha => h a (List.mem_cons_of_mem _ ha)
    refine ⟨b :: bs, ?_⟩
    rw [List.mapM_cons, hb, hbs]
    rfl

theorem mapM_congr {f g : α → Except ε β} {l : List α} (h : ∀ a ∈ l, f a = g a) :
    l.mapM f = l.mapM g := by
  induction l with
  | nil => rfl
  | cons a rest ih =>
    obtain ⟨ha, hrest⟩ := List.forall_mem_cons.1 h
    rw [List.mapM_cons, List.mapM_cons, ha, ih hrest]

theorem forall₂_mem_right {α β : Type*} {R : α → β → Prop} {l : List α} {bs : List β}
    (h : List.Forall₂ R l bs) {b : β} (hb : b ∈ bs) : ∃ a ∈ l, R a b := by
  induction h with
  | nil => cases hb
  | @cons a b' l bs hab _ ih =>
    rcases List.mem_cons.1 hb with rfl | hb
    · exact ⟨a, List.mem_cons_self, hab⟩
    · obtain ⟨a', ha', h⟩ := ih hb
      exact ⟨a', List.mem_cons_of_mem _ ha', h⟩

/-- Related items that are labelled alike. -/
theorem map_eq_of_forall₂ {α β κ : Type*} {R : α → β → Prop} {f : α → κ} {g : β → κ} {l : List α}
    {bs : List β} (h : List.Forall₂ R l bs) (hlabel : ∀ a b, R a b → f a = g b) :
    l.map f = bs.map g := by
  induction h with
  | nil => rfl
  | cons hab _ ih => rw [List.map_cons, List.map_cons, hlabel _ _ hab, ih]

/-- Optional results that are all there can be collected. -/
theorem forall₂_filterMap {α β : Type*} {R : α → β → Prop} {l : List α} {os : List (Option β)}
    (h : List.Forall₂ (fun a o => ∃ b ∈ o, R a b) l os) :
    List.Forall₂ R l (os.filterMap id) := by
  induction h with
  | nil => exact .nil
  | cons h _ ih =>
    obtain ⟨b, hb, hab⟩ := h
    obtain rfl := Option.mem_def.1 hb
    exact .cons hab ih

/-! ### Computations that settle a condition -/

/-- `m` returns a value with `post` if `p` holds, and raises if not. -/
def Settles (m : Except ε α) (p : Prop) (post : α → Prop) : Prop :=
  match m with
  | .ok a => p ∧ post a
  | .error _ => ¬p

namespace Settles

variable {m : Except ε α} {p q : Prop} {post : α → Prop}

theorem ok {a : α} (h : post a) : Settles (.ok a : Except ε α) True post := ⟨trivial, h⟩

theorem error (e : ε) : Settles (.error e : Except ε α) False post := id

/-- A computation settles whether it returns. -/
theorem refl (m : Except ε α) : Settles m (∃ a, m = .ok a) fun a => m = .ok a := by
  cases m with
  | ok a => exact ⟨⟨a, rfl⟩, rfl⟩
  | error e => exact fun ⟨_, h⟩ => nomatch h

theorem congr (h : Settles m p post) (hpq : p ↔ q) : Settles m q post := by
  cases m with
  | ok a => exact ⟨hpq.1 h.1, h.2⟩
  | error e => exact mt hpq.2 h

theorem mono {post' : α → Prop} (h : Settles m p post) (hpost : ∀ a, post a → post' a) :
    Settles m p post' := by
  cases m with
  | ok a => exact ⟨h.1, hpost a h.2⟩
  | error e => exact h

theorem bind {f : α → Except ε β} {post' : β → Prop} (hm : Settles m p post)
    (hf : ∀ a, post a → Settles (f a) q post') : Settles (m >>= f) (p ∧ q) post' := by
  cases m with
  | error e => exact fun h => hm h.1
  | ok a =>
    have hfa := hf a hm.2
    change Settles (f a) (p ∧ q) post'
    exact hfa.congr (by simp [hm.1])

theorem map {f : α → β} {post' : β → Prop} (hm : Settles m p post)
    (hf : ∀ a, post a → post' (f a)) : Settles (f <$> m) p post' := by
  cases m with
  | error e => exact hm
  | ok a => exact ⟨hm.1, hf a hm.2⟩

/-- A step that never raises may follow. -/
theorem bind_ok {f : α → Except ε β} {post' : β → Prop} (hm : Settles m p post)
    (hf : ∀ a, post a → Settles (f a) True post') : Settles (m >>= f) p post' :=
  (bind hm hf).congr (by simp)

theorem raiseIf (r : Prop) [Decidable r] (e : ε) :
    Settles (Foundations.raiseIf r e) (¬ r) fun _ => ¬ r := by
  by_cases h : r <;> simp [Settles, Foundations.raiseIf, h]

theorem mapM {f : α → Except ε β} {p : α → Prop} {R : α → β → Prop} {l : List α}
    (h : ∀ a ∈ l, Settles (f a) (p a) (R a)) :
    Settles (l.mapM f) (∀ a ∈ l, p a) (List.Forall₂ R l) := by
  induction l with
  | nil => exact (ok List.Forall₂.nil).congr (by simp)
  | cons a l ih =>
    rw [List.mapM_cons]
    have htail := ih fun a ha => h a (List.mem_cons_of_mem _ ha)
    refine (bind (h a List.mem_cons_self) fun b hb => bind_ok htail fun bs hbs => ?_).congr
      (by simp)
    exact ok (List.Forall₂.cons hb hbs)

theorem returns_iff (h : Settles m p post) : (∃ a, m = .ok a) ↔ p := by
  cases m with
  | ok a => exact iff_of_true ⟨a, rfl⟩ h.1
  | error e => exact iff_of_false (fun ⟨_, h⟩ => nomatch h) h

theorem of_eq_ok {a : α} (h : Settles m p post) (ha : m = .ok a) : p ∧ post a := by
  subst ha
  exact h

end Settles

end AltrStream.Foundations

/-! ## Attempts that are made one by one

Every item of a list is attempted on its own. What the attempts return and why the
others fail are collected in the order of the list, so that between the two no item
is lost and none counts twice. `FailsOnly` says what a sequence of steps can fail with.
-/
namespace AltrStream.Foundations

variable {α β ε κ : Type*}

/-- Why an attempt fails. -/
def failure? : Except ε β → Option ε
  | .ok _ => none
  | .error e => some e

@[simp] theorem failure?_eq_some {r : Except ε β} {e : ε} : failure? r = some e ↔ r = .error e := by
  cases r <;> simp [failure?]

@[simp] theorem toOption_eq_some {r : Except ε β} {b : β} : r.toOption = some b ↔ r = .ok b := by
  cases r <;> simp [Except.toOption]

/-- What the attempts that succeed return. -/
def successes (f : α → Except ε β) (items : List α) : List β := items.filterMap fun a => (f a).toOption

def failures (f : α → Except ε β) (items : List α) : List ε := items.filterMap fun a => failure? (f a)

variable {f : α → Except ε β} {items : List α}

@[simp] theorem mem_successes {b : β} : b ∈ successes f items ↔ ∃ a ∈ items, f a = .ok b := by
  simp [successes]

@[simp] theorem mem_failures {e : ε} : e ∈ failures f items ↔ ∃ a ∈ items, f a = .error e := by
  simp [failures]

theorem successes_cons_of_ok {a : α} {b : β} (h : f a = .ok b) :
    successes f (a :: items) = b :: successes f items := by
  simp [successes, toOption_eq_some.2 h]

theorem successes_cons_of_error {a : α} {e : ε} (h : f a = .error e) :
    successes f (a :: items) = successes f items := by
  simp [successes, h, Except.toOption]

theorem failures_cons_of_error {a : α} {e : ε} (h : f a = .error e) :
    failures f (a :: items) = e :: failures f items := by
  simp [failures, failure?_eq_some.2 h]

theorem failures_cons_of_ok {a : α} {b : β} (h : f a = .ok b) :
    failures f (a :: items) = failures f items := by
  simp [failures, h, failure?]

/-- What is returned, labelled like its items, and the failures labelled so make up the items. -/
theorem labels_perm {label : α → κ} {ofOk : β → κ} {ofError : ε → κ}
    (hok : ∀ a ∈ items, ∀ b, f a = .ok b → ofOk b = label a)
    (herror : ∀ a ∈ items, ∀ e, f a = .error e → ofError e = label a) :
    ((successes f items).map ofOk ++ (failures f items).map ofError).Perm (items.map label) := by
  induction items with
  | nil => exact List.Perm.refl _
  | cons a items ih =>
    have ih := ih (fun a ha => hok a (List.mem_cons_of_mem _ ha))
      (fun a ha => herror a (List.mem_cons_of_mem _ ha))
    cases hf : f a with
    | ok b =>
      rw [successes_cons_of_ok hf, failures_cons_of_ok hf, List.map_cons, List.map_cons,
        hok a List.mem_cons_self b hf]
      exact ih.cons _
    | error e =>
      rw [successes_cons_of_error hf, failures_cons_of_error hf, List.map_cons, List.map_cons,
        herror a List.mem_cons_self e hf]
      exact List.perm_middle.trans (ih.cons _)

/-- What is returned comes in the order of the items. -/
theorem successes_sublist {label : α → κ} {ofOk : β → κ}
    (hok : ∀ a ∈ items, ∀ b, f a = .ok b → ofOk b = label a) :
    ((successes f items).map ofOk).Sublist (items.map label) := by
  induction items with
  | nil => exact List.Sublist.refl _
  | cons a items ih =>
    have ih := ih fun a ha => hok a (List.mem_cons_of_mem _ ha)
    cases hf : f a with
    | ok b =>
      rw [successes_cons_of_ok hf, List.map_cons, List.map_cons, hok a List.mem_cons_self b hf]
      exact ih.cons_cons _
    | error e =>
      rw [successes_cons_of_error hf, List.map_cons]
      exact ih.cons _

/-- A check that returns its item keeps those that pass it. -/
theorem successes_eq_filter {check : α → Except ε α} {p : α → Bool}
    (h : ∀ a ∈ items, ∀ b, check a = .ok b ↔ b = a ∧ p a = true) :
    successes check items = items.filter p := by
  induction items with
  | nil => rfl
  | cons a items ih =>
    have ih := ih fun a ha => h a (List.mem_cons_of_mem _ ha)
    have ha := h a List.mem_cons_self
    cases hcheck : check a with
    | ok b =>
      obtain ⟨rfl, hp⟩ := (ha b).1 hcheck
      rw [successes_cons_of_ok hcheck, ih, List.filter_cons_of_pos hp]
    | error e =>
      have hp : ¬ p a = true := fun hp => by cases hcheck.symm.trans ((ha a).2 ⟨rfl, hp⟩)
      rw [successes_cons_of_error hcheck, ih, List.filter_cons_of_neg hp]

/-! ### What a computation can fail with -/

/-- Whatever `m` fails with satisfies `p`. -/
def FailsOnly (m : Except ε β) (p : ε → Prop) : Prop := ∀ e, m = .error e → p e

namespace FailsOnly

variable {α β γ ε : Type} {p q : ε → Prop}

theorem ok (b : β) : FailsOnly (.ok b : Except ε β) p := fun _ h => nomatch h

theorem error {e : ε} (h : p e) : FailsOnly (.error e : Except ε β) p := by
  rintro _ ⟨⟩
  exact h

theorem mono {m : Except ε β} (h : FailsOnly m p) (hpq : ∀ e, p e → q e) : FailsOnly m q :=
  fun e he => hpq e (h e he)

theorem raiseIf {r : Prop} [Decidable r] {e : ε} (h : p e) : FailsOnly (raiseIf r e) p := by
  unfold Foundations.raiseIf
  split_ifs
  · exact error h
  · exact ok ()

theorem bind {m : Except ε β} {g : β → Except ε γ}
    (hm : FailsOnly m p) (hg : ∀ b, m = .ok b → FailsOnly (g b) p) : FailsOnly (m >>= g) p := by
  cases m with
  | error e =>
    intro e' h
    exact hm e' (congrArg Except.error (Except.error.inj h))
  | ok b => exact hg b rfl

theorem map {m : Except ε β} (hm : FailsOnly m p) (g : β → γ) :
    FailsOnly (g <$> m) p := by
  cases m with
  | error e =>
    intro e' h
    exact hm e' (congrArg Except.error (Except.error.inj h))
  | ok b => exact ok _

theorem checkAll {check : α → Except ε Unit} {l : List α}
    (h : ∀ a ∈ l, FailsOnly (check a) p) : FailsOnly (checkAll check l) p := by
  induction l with
  | nil => exact ok ()
  | cons a l ih =>
    exact bind (h a List.mem_cons_self) fun _ _ => ih fun a ha => h a (List.mem_cons_of_mem _ ha)

theorem mapM {g : α → Except ε β} {l : List α}
    (h : ∀ a ∈ l, FailsOnly (g a) p) : FailsOnly (l.mapM g) p := by
  induction l with
  | nil => exact ok []
  | cons a l ih =>
    rw [List.mapM_cons]
    refine bind (h a List.mem_cons_self) fun _ _ => ?_
    exact bind (ih fun a ha => h a (List.mem_cons_of_mem _ ha)) fun _ _ => ok _

end FailsOnly

end AltrStream.Foundations
