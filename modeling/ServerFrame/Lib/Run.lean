import Mathlib.Algebra.Ring.Nat
import Mathlib.Data.List.Basic
import Mathlib.Data.List.Induction

/-!
# Runs of a partial step function

`step s a = none` says that action `a` cannot be taken in state `s`. A run takes a
list of actions one after the other. An invariant is proved once for a step and
holds along every run; `Steps` restricts the runs to actions that are admitted in
the state they are taken in.
-/
namespace Run

variable {σ α : Type*}

def run (step : σ → α → Option σ) : σ → List α → Option σ
  | s, [] => some s
  | s, a :: as => (step s a).bind fun s' => run step s' as

variable {step : σ → α → Option σ}

@[simp] theorem run_nil (s : σ) : run step s [] = some s := rfl

theorem run_cons_some {s t : σ} {a : α} {as : List α} (ran : run step s (a :: as) = some t) :
    ∃ s', step s a = some s' ∧ run step s' as = some t := by
  simpa [run, Option.bind_eq_some_iff] using ran

theorem run_append (s : σ) (as bs : List α) :
    run step s (as ++ bs) = (run step s as).bind fun s' => run step s' bs := by
  induction as generalizing s with
  | nil => rfl
  | cons a as ih =>
    simp only [List.cons_append, run]
    cases step s a with
    | none => rfl
    | some s' => exact ih s'

/-- What every step keeps, every run keeps. -/
theorem run_invariant {P : σ → Prop}
    (keeps : ∀ s a s', P s → step s a = some s' → P s') {s t : σ} {as : List α}
    (initial : P s) (ran : run step s as = some t) : P t := by
  induction as generalizing s with
  | nil =>
    rw [run_nil, Option.some.injEq] at ran
    exact ran ▸ initial
  | cons a as ih =>
    obtain ⟨s', stepped, ran⟩ := run_cons_some ran
    exact ih (keeps s a s' initial stepped) ran

/-- A run from `s` to `t` along `as` in which every action is admitted. -/
inductive Steps (step : σ → α → Option σ) (admitted : σ → α → Prop) : σ → List α → σ → Prop
  | nil (s : σ) : Steps step admitted s [] s
  | cons {s s' t : σ} {a : α} {as : List α} (allowed : admitted s a)
      (stepped : step s a = some s') (rest : Steps step admitted s' as t) :
      Steps step admitted s (a :: as) t

/-- What every admitted step keeps, every run of admitted steps keeps. -/
theorem Steps.invariant {admitted : σ → α → Prop} {P : σ → Prop}
    (keeps : ∀ s a s', P s → admitted s a → step s a = some s' → P s') {s t : σ} {as : List α}
    (steps : Steps step admitted s as t) (initial : P s) : P t := by
  induction steps with
  | nil s => exact initial
  | cons allowed stepped _ ih => exact ih (keeps _ _ _ initial allowed stepped)

/-- Runs whose actions are admitted in the same states. -/
theorem Steps.congr {admitted other : σ → α → Prop} (same : ∀ s a, admitted s a ↔ other s a)
    {s t : σ} {as : List α} : Steps step admitted s as t ↔ Steps step other s as t := by
  have eq : admitted = other := by
    funext s a
    exact propext (same s a)
  rw [eq]

/-- Takes the actions one by one and tests that each is admitted and can be taken. -/
def admissible (step : σ → α → Option σ) (admitted : σ → α → Prop)
    [∀ s a, Decidable (admitted s a)] : σ → List α → Bool
  | _, [] => true
  | s, a :: as => decide (admitted s a) &&
    match step s a with
    | some s' => admissible step admitted s' as
    | none => false

theorem Steps.of_admissible (step : σ → α → Option σ) (admitted : σ → α → Prop)
    [∀ s a, Decidable (admitted s a)] (s : σ) (as : List α)
    (tested : admissible step admitted s as = true) : ∃ t, Steps step admitted s as t := by
  induction as generalizing s with
  | nil => exact ⟨s, .nil s⟩
  | cons a as ih =>
    simp only [admissible, Bool.and_eq_true, decide_eq_true_eq] at tested
    obtain ⟨allowed, rest⟩ := tested
    cases stepped : step s a with
    | none => simp [stepped] at rest
    | some s' =>
      rw [stepped] at rest
      obtain ⟨t, steps⟩ := ih s' rest
      exact ⟨t, .cons allowed stepped steps⟩

theorem Steps.run {admitted : σ → α → Prop} {s t : σ} {as : List α}
    (steps : Steps step admitted s as t) : run step s as = some t := by
  induction steps with
  | nil s => rfl
  | cons _ stepped _ ih => simp only [Run.run, stepped, Option.bind_some, ih]

theorem Steps.mono {admitted other : σ → α → Prop} (weaker : ∀ s a, admitted s a → other s a) {s t : σ}
    {as : List α} (steps : Steps step admitted s as t) : Steps step other s as t := by
  induction steps with
  | nil s => exact .nil s
  | cons allowed stepped _ ih => exact .cons (weaker _ _ allowed) stepped ih

/-- A run of admitted actions whose end is looked at. -/
theorem Steps.of_tested (step : σ → α → Option σ) (admitted : σ → α → Prop)
    [∀ s a, Decidable (admitted s a)] (P : σ → Prop) [DecidablePred P] (s : σ) (as : List α)
    (tested : admissible step admitted s as = true)
    (ends : (Run.run step s as).all (fun t => decide (P t)) = true) :
    ∃ t, Steps step admitted s as t ∧ P t := by
  obtain ⟨t, steps⟩ := Steps.of_admissible step admitted s as tested
  rw [steps.run] at ends
  exact ⟨t, steps, of_decide_eq_true ends⟩

/-- Where no step adds to a measure and each counted action takes from it, a run has no more counted
actions than the measure. -/
theorem Steps.count_le {admitted : σ → α → Prop} {P : σ → Prop} (measure : σ → Nat) (counted : α → Bool)
    (keeps : ∀ s a s', P s → admitted s a → step s a = some s' →
      P s' ∧ measure s' + (counted a).toNat ≤ measure s)
    {s t : σ} {as : List α} (steps : Steps step admitted s as t) (initial : P s) :
    as.countP counted + measure t ≤ measure s := by
  induction steps with
  | nil s => simp
  | @cons _ _ _ a _ allowed stepped _ ih =>
    obtain ⟨kept, falls⟩ := keeps _ _ _ initial allowed stepped
    have rest := ih kept
    rw [List.countP_cons]
    cases counts : counted a with
    | false =>
      rw [counts, Bool.toNat_false] at falls
      simp only [Bool.false_eq_true, if_false]
      omega
    | true =>
      rw [counts, Bool.toNat_true] at falls
      simp only [if_true]
      omega

/-- Where every admitted step takes from a measure, a run is no longer than the measure. -/
theorem Steps.length_le {admitted : σ → α → Prop} {P : σ → Prop} (measure : σ → Nat)
    (keeps : ∀ s a s', P s → admitted s a → step s a = some s' → P s' ∧ measure s' < measure s)
    {s t : σ} {as : List α} (steps : Steps step admitted s as t) (initial : P s) :
    as.length + measure t ≤ measure s := by
  have counted := steps.count_le measure (fun _ => true) keeps initial
  rwa [List.countP_true] at counted

/-- Where an action keeps `holds` exactly if it is admitted, `holds` is true along a whole history
exactly if every action in it is admitted behind those in front of it. -/
theorem prefixes_iff (holds : List α → Prop) (admitted : List α → α → Prop) (initial : holds [])
    (keeps_iff : ∀ as a, holds as → (holds (as ++ [a]) ↔ admitted as a)) (as : List α) :
    (∀ pre, pre <+: as → holds pre) ↔ ∀ pre a, pre ++ [a] <+: as → admitted pre a := by
  constructor
  · intro always pre a inside
    have before : holds pre := always pre ((List.prefix_append pre [a]).trans inside)
    exact (keeps_iff pre a before).1 (always _ inside)
  · intro allowed pre inside
    -- the history grows at its end
    induction pre using List.reverseRecOn with
    | nil => exact initial
    | append_singleton pre a ih =>
      have before : holds pre := ih ((List.prefix_append pre [a]).trans inside)
      exact (keeps_iff pre a before).2 (allowed pre a inside)

end Run
