import Mathlib.Data.Nat.Notation

/-! # Runs of attempted operations

An operation either yields a new state or raises, and then the state stays as it
was. The states that a run reaches satisfy whatever every allowed step keeps.
-/
namespace AltrStream.Foundations
variable {σ ο ε : Type*}

/-- The state after an operation that may raise. -/
def attempt (apply : σ → ο → Except ε σ) (s : σ) (o : ο) : σ :=
  match apply s o with
  | .ok s' => s'
  | .error _ => s

theorem attempt_ok {apply : σ → ο → Except ε σ} {s s' : σ} {o : ο} (h : apply s o = .ok s') :
    attempt apply s o = s' := by
  rw [attempt, h]

/-- A failed operation leaves the state unchanged. -/
theorem attempt_error {apply : σ → ο → Except ε σ} {s : σ} {o : ο} {e : ε}
    (h : apply s o = .error e) : attempt apply s o = s := by
  rw [attempt, h]

/-- What is reached from `start` by attempting operations, each allowed in its state. -/
inductive Reached (apply : σ → ο → Except ε σ) (allowed : σ → ο → Prop) (start : σ) : σ → Prop
  | start : Reached apply allowed start start
  | step {s : σ} (o : ο) : Reached apply allowed start s → allowed s o →
      Reached apply allowed start (attempt apply s o)

/-- What holds at the start and is kept by every successful allowed step holds throughout. -/
theorem Reached.invariant {apply : σ → ο → Except ε σ} {allowed : σ → ο → Prop} {start s : σ}
    {inv : σ → Prop} (hrun : Reached apply allowed start s) (hstart : inv start)
    (hstep : ∀ s o s', inv s → allowed s o → apply s o = .ok s' → inv s') : inv s := by
  induction hrun with
  | start => exact hstart
  | @step s o _ hallowed ih =>
    cases happly : apply s o with
    | ok s' =>
      rw [attempt_ok happly]
      exact hstep s o s' ih hallowed happly
    | error e =>
      rw [attempt_error happly]
      exact ih

theorem Reached.foldl {apply : σ → ο → Except ε σ} {allowed : σ → ο → Prop} {start s : σ}
    (hrun : Reached apply allowed start s) {ops : List ο} (hallowed : ∀ o ∈ ops, ∀ s, allowed s o) :
    Reached apply allowed start (ops.foldl (attempt apply) s) := by
  induction ops generalizing s with
  | nil => exact hrun
  | cons o ops ih =>
    obtain ⟨ho, hops⟩ := List.forall_mem_cons.1 hallowed
    exact ih (.step o hrun (ho s)) hops

theorem Reached.mono {apply : σ → ο → Except ε σ} {allowed allowed' : σ → ο → Prop} {start s : σ}
    (h : ∀ s o, allowed s o → allowed' s o) (hrun : Reached apply allowed start s) :
    Reached apply allowed' start s := by
  induction hrun with
  | start => exact .start
  | step o _ hallowed ih => exact .step o ih (h _ _ hallowed)

end AltrStream.Foundations
