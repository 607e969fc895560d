import Mathlib.Algebra.Ring.Nat
import Mathlib.Data.List.Basic

/-!
# Programs with state and exceptions

How the operations of `EStateM` act on a state, and pre- and postconditions for
them. An exception keeps the state reached when it was thrown, so a postcondition
has one part for returning and one for throwing.
-/
namespace EState

variable {ε σ α β : Type}

@[simp] theorem run_pure (a : α) (s : σ) : (pure a : EStateM ε σ α) s = .ok a s := rfl

@[simp] theorem run_throw (e : ε) (s : σ) : (throw e : EStateM ε σ α) s = .error e s := rfl

@[simp] theorem run_get (s : σ) : (get : EStateM ε σ σ) s = .ok s s := rfl

@[simp] theorem run_set (s s' : σ) : (set s' : EStateM ε σ PUnit) s = .ok ⟨⟩ s' := rfl

@[simp] theorem run_modify (f : σ → σ) (s : σ) :
    (modify f : EStateM ε σ PUnit) s = .ok ⟨⟩ (f s) := rfl

theorem run_bind (x : EStateM ε σ α) (f : α → EStateM ε σ β) (s : σ) :
    (x >>= f) s = match x s with
      | .ok a s' => f a s'
      | .error e s' => .error e s' := rfl

theorem run_map (f : α → β) (x : EStateM ε σ α) (s : σ) :
    (f <$> x) s = match x s with
      | .ok a s' => .ok (f a) s'
      | .error e s' => .error e s' := rfl

theorem run_bind_ok {x : EStateM ε σ α} {s s' : σ} {a : α} (ran : x s = .ok a s')
    (f : α → EStateM ε σ β) : (x >>= f) s = f a s' := by
  rw [run_bind, ran]

theorem run_bind_bind_ok {γ : Type} {x : EStateM ε σ α} {y : α → EStateM ε σ β} {s s' : σ} {b : β}
    (ran : (x >>= y) s = .ok b s') (f : β → EStateM ε σ γ) :
    (x >>= fun a => y a >>= f) s = f b s' := by
  rw [← bind_assoc, run_bind_ok ran]

theorem run_bind_error {x : EStateM ε σ α} {s s' : σ} {e : ε} (ran : x s = .error e s')
    (f : α → EStateM ε σ β) : (x >>= f) s = .error e s' := by
  rw [run_bind, ran]

theorem run_discard_ok {x : EStateM ε σ α} {s s' : σ} {a : α} (ran : x s = .ok a s') :
    (discard x) s = .ok ⟨⟩ s' := by
  have discarded : (discard x) s = ((fun _ => PUnit.unit) <$> x) s := rfl
  rw [discarded, run_map, ran]

/-- From every state in `P`, `x` returns in `Q` or throws in `E`. -/
def Triple (P : σ → Prop) (x : EStateM ε σ α) (Q : α → σ → Prop) (E : ε → σ → Prop) : Prop :=
  ∀ s, P s → match x s with
    | .ok a s' => Q a s'
    | .error e s' => E e s'

namespace Triple

variable {P : σ → Prop} {Q : α → σ → Prop} {R : β → σ → Prop} {E : ε → σ → Prop}

theorem ok {x : EStateM ε σ α} (triple : Triple P x Q E) {s s' : σ} {a : α} (holds : P s)
    (ran : x s = .ok a s') : Q a s' := by
  have post := triple s holds
  rwa [ran] at post

theorem error {x : EStateM ε σ α} (triple : Triple P x Q E) {s s' : σ} {e : ε} (holds : P s)
    (ran : x s = .error e s') : E e s' := by
  have post := triple s holds
  rwa [ran] at post

theorem pure {a : α} (holds : ∀ s, P s → Q a s) : Triple P (pure a : EStateM ε σ α) Q E :=
  holds

theorem throw {e : ε} (holds : ∀ s, P s → E e s) :
    Triple P (throw e : EStateM ε σ α) Q E :=
  holds

theorem get {Q : σ → σ → Prop} (holds : ∀ s, P s → Q s s) :
    Triple P (get : EStateM ε σ σ) Q E :=
  holds

theorem bind {x : EStateM ε σ α} {f : α → EStateM ε σ β} (first : Triple P x Q E)
    (second : ∀ a, Triple (Q a) (f a) R E) : Triple P (x >>= f) R E := by
  intro s holds
  have post := first s holds
  rw [run_bind]
  cases ran : x s with
  | ok a s' =>
    rw [ran] at post
    exact second a s' post
  | error e s' =>
    rw [ran] at post
    exact post

/-- Mapping the result of a program. -/
theorem map {x : EStateM ε σ α} {f : α → β} (first : Triple P x (fun a => R (f a)) E) :
    Triple P (x >>= fun a => Pure.pure (f a)) R E :=
  first.bind fun _ => pure fun _ holds => holds

end Triple

/-- What a program without a state has returned was returned by both of its parts. -/
theorem except_bind_ok {x : Except ε α} {f : α → Except ε β} {b : β} (ran : (x >>= f) = .ok b) :
    ∃ a, x = .ok a ∧ f a = .ok b := by
  cases x with
  | error e => cases ran
  | ok a => exact ⟨a, rfl, ran⟩

end EState
