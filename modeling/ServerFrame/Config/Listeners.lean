import ServerFrame.Lib.Run
import Mathlib.Logic.Function.Basic

/-!
# `ConfigVar` and its listeners

Any number of threads call `SetValue` on one variable. The comparison and the calls of
the listeners are made under the read lock, which several threads may hold at once; the
assignment is made under the write lock, which waits until nobody holds the read lock.
-/
namespace ServerFrame.Config

variable {T : Type}

/-- Where a thread stands in `SetValue(v)`. -/
inductive Pc (T : Type) where
  | idle
  /-- In the loop over `cbs_`, with the listeners that are still to be called. -/
  | notify (v : T) (rest : List Nat)
  /-- Between the two locks. -/
  | assign (v : T)
  deriving DecidableEq

/-- The value a thread is setting. -/
def Pc.setting : Pc T → Option T
  | .idle => none
  | .notify v _ => some v
  | .assign v => some v

/-- `readers` is the number of threads that hold the read lock. `last` is not in the
source: the new value that a listener was last called with. -/
structure ConfigVar (T : Type) where
  val : T
  cbs : List Nat
  readers : Nat
  last : Nat → Option T
  pc : Nat → Pc T

def ConfigVar.new (initial : T) (cbs : List Nat) : ConfigVar T where
  val := initial
  cbs := cbs
  readers := 0
  last := fun _ => none
  pc := fun _ => .idle

inductive Label (T : Type) where
  /-- Takes the read lock and compares. -/
  | compare (t : Nat) (v : T)
  /-- Calls one listener. -/
  | call (t : Nat)
  /-- Releases the read lock. -/
  | unlock (t : Nat)
  /-- Assigns under the write lock. -/
  | assign (t : Nat)

def ConfigVar.goto (s : ConfigVar T) (t : Nat) (pc : Pc T) : ConfigVar T :=
  { s with pc := Function.update s.pc t pc }

/-- `SetValue`. -/
def step [DecidableEq T] (s : ConfigVar T) : Label T → Option (ConfigVar T)
  | .compare t v =>
    if s.pc t = .idle then
      -- the comparison and the loop hold the read lock
      if v = s.val then some s
      else some ({ s with readers := s.readers + 1 }.goto t (.notify v s.cbs))
    else none
  | .call t =>
    match s.pc t with
    | .notify v (i :: rest) =>
      some ({ s with last := Function.update s.last i (some v) }.goto t (.notify v rest))
    | _ => none
  | .unlock t =>
    match s.pc t with
    | .notify v [] => some ({ s with readers := s.readers - 1 }.goto t (.assign v))
    | _ => none
  | .assign t =>
    -- the write lock is free when nobody reads
    match s.readers, s.pc t with
    | 0, .assign v => some ({ s with val := v }.goto t .idle)
    | _, _ => none

/-- A call that finds its value to be new is alone, or the others set the same value. -/
def Undisturbed (s : ConfigVar T) : Label T → Prop
  | .compare _ v => v ≠ s.val → ∀ t w, (s.pc t).setting = some w → w = v
  | _ => True

/-- No call is in progress. -/
def ConfigVar.Quiet (s : ConfigVar T) : Prop := ∀ t, s.pc t = .idle

/-- What a listener holds that keeps the value it was last called with. -/
def ConfigVar.mirrored (s : ConfigVar T) (initial : T) (i : Nat) : T := (s.last i).getD initial

structure Sound (initial : T) (cbs : List Nat) (s : ConfigVar T) : Prop where
  cbs_eq : s.cbs = cbs
  same : ∀ t t' v w, (s.pc t).setting = some v → (s.pc t').setting = some w → v = w
  told : ∀ t v rest, s.pc t = .notify v rest → ∀ i ∈ cbs, i ∉ rest → s.last i = some v
  done : ∀ t v, s.pc t = .assign v → ∀ i ∈ cbs, s.last i = some v
  /-- A listener that does not hold the value holds what is being set. -/
  mirrored : ∀ i ∈ cbs, s.mirrored initial i = s.val ∨
    ∃ t v, (s.pc t).setting = some v ∧ s.last i = some v

theorem sound_new (initial : T) (cbs : List Nat) : Sound initial cbs (ConfigVar.new initial cbs) := by
  refine ⟨rfl, ?_, ?_, ?_, fun i _ => .inl rfl⟩
  · intro t t' v w setting
    cases setting
  · intro t v rest is
    cases is
  · intro t v is
    cases is

section Steps

variable {initial : T} {cbs : List Nat} {s s' : ConfigVar T} {t : Nat}

theorem goto_pc (s : ConfigVar T) (t : Nat) (pc : Pc T) (t' : Nat) :
    (s.goto t pc).pc t' = if t' = t then pc else s.pc t' := by
  simp [ConfigVar.goto, Function.update_apply]

theorem sound_compare {v : T} (sound : Sound initial cbs s) (idle : s.pc t = .idle)
    (others : ∀ t w, (s.pc t).setting = some w → w = v) :
    Sound initial cbs ({ s with readers := s.readers + 1 }.goto t (.notify v s.cbs)) := by
  have setting : ∀ t' w, (({ s with readers := s.readers + 1 }.goto t (.notify v s.cbs)).pc
      t').setting = some w → w = v := by
    intro t' w is
    rw [goto_pc] at is
    split at is
    next => exact (Option.some.inj is).symm
    next => exact others t' w is
  refine ⟨sound.cbs_eq, ?_, ?_, ?_, fun i member => ?_⟩
  · intro t₁ t₂ v₁ v₂ first second
    rw [setting t₁ v₁ first, setting t₂ v₂ second]
  · intro t' w rest is i member told
    rw [goto_pc] at is
    split at is
    next =>
      obtain ⟨-, rfl⟩ := Pc.notify.inj is
      exact absurd (sound.cbs_eq ▸ member) told
    next => exact sound.told t' w rest is i member told
  · intro t' w is
    rw [goto_pc] at is
    split at is
    next => cases is
    next => exact sound.done t' w is
  · rcases sound.mirrored i member with holds | ⟨t', w, is, last⟩
    · exact .inl holds
    · refine .inr ⟨t', w, ?_, last⟩
      have ne : t' ≠ t := by
        rintro rfl
        rw [idle] at is
        cases is
      rw [goto_pc, if_neg ne]
      exact is

theorem sound_call {v : T} {i : Nat} {rest : List Nat} (sound : Sound initial cbs s)
    (calls : s.pc t = .notify v (i :: rest)) :
    Sound initial cbs
      ({ s with last := Function.update s.last i (some v) }.goto t (.notify v rest)) := by
  have setting : ∀ t', (({ s with last := Function.update s.last i (some v) }.goto t
      (.notify v rest)).pc t').setting = (s.pc t').setting := by
    intro t'
    rw [goto_pc]
    split
    next same =>
      rw [same, calls]
      rfl
    next => rfl
  have in_progress : (s.pc t).setting = some v := by
    rw [calls]
    rfl
  -- whoever is in progress sets `v` as well, so calling with `v` does no harm
  have last : ∀ t' w j, (s.pc t').setting = some w → s.last j = some w →
      Function.update s.last i (some v) j = some w := by
    intro t' w j is told
    by_cases same : j = i
    · rw [same, Function.update_self, sound.same t t' v w in_progress is]
    · rw [Function.update_of_ne same, told]
  refine ⟨sound.cbs_eq, ?_, ?_, ?_, fun j member => ?_⟩
  · intro t₁ t₂ v₁ v₂ first second
    exact sound.same t₁ t₂ v₁ v₂ (setting t₁ ▸ first) (setting t₂ ▸ second)
  · intro t' w rest' is j member told
    rw [goto_pc] at is
    split at is
    next =>
      obtain ⟨rfl, rfl⟩ := Pc.notify.inj is
      by_cases same : j = i
      · rw [same]
        exact Function.update_self ..
      · exact last t v j in_progress (sound.told t v _ calls j member (by simp [same, told]))
    next => exact last t' w j (by rw [is]; rfl) (sound.told t' w rest' is j member told)
  · intro t' w is j member
    rw [goto_pc] at is
    split at is
    next => cases is
    next => exact last t' w j (by rw [is]; rfl) (sound.done t' w is j member)
  · -- the listener holds the new value now, others what they held
    by_cases same : j = i
    · refine .inr ⟨t, v, by rw [setting, in_progress], ?_⟩
      rw [same]
      exact Function.update_self ..
    · rcases sound.mirrored j member with holds | ⟨t', w, is, told⟩
      · refine .inl ?_
        rw [← holds]
        simp [ConfigVar.mirrored, ConfigVar.goto, same]
      · exact .inr ⟨t', w, by rw [setting, is], last t' w j is told⟩

theorem sound_unlock {v : T} (sound : Sound initial cbs s) (calls : s.pc t = .notify v []) :
    Sound initial cbs ({ s with readers := s.readers - 1 }.goto t (.assign v)) := by
  have setting : ∀ t', (({ s with readers := s.readers - 1 }.goto t (.assign v)).pc t').setting =
      (s.pc t').setting := by
    intro t'
    rw [goto_pc]
    split
    next same =>
      rw [same, calls]
      rfl
    next => rfl
  refine ⟨sound.cbs_eq, ?_, ?_, ?_, fun i member => ?_⟩
  · intro t₁ t₂ v₁ v₂ first second
    exact sound.same t₁ t₂ v₁ v₂ (setting t₁ ▸ first) (setting t₂ ▸ second)
  · intro t' w rest is
    rw [goto_pc] at is
    split at is
    next => cases is
    next => exact sound.told t' w rest is
  · intro t' w is i member
    rw [goto_pc] at is
    split at is
    next =>
      obtain rfl := Pc.assign.inj is
      exact sound.told t v [] calls i member (by simp)
    next => exact sound.done t' w is i member
  · rcases sound.mirrored i member with holds | ⟨t', w, is, told⟩
    · exact .inl holds
    · exact .inr ⟨t', w, by rw [setting, is], told⟩

theorem sound_assign {v : T} (sound : Sound initial cbs s) (assigns : s.pc t = .assign v) :
    Sound initial cbs ({ s with val := v }.goto t .idle) := by
  have setting : ∀ t' w, (({ s with val := v }.goto t .idle).pc t').setting = some w →
      (s.pc t').setting = some w := by
    intro t' w is
    rw [goto_pc] at is
    split at is
    next => cases is
    next => exact is
  refine ⟨sound.cbs_eq, ?_, ?_, ?_, fun i member => .inl ?_⟩
  · intro t₁ t₂ v₁ v₂ first second
    exact sound.same t₁ t₂ v₁ v₂ (setting t₁ v₁ first) (setting t₂ v₂ second)
  · intro t' w rest is
    rw [goto_pc] at is
    split at is
    next => cases is
    next => exact sound.told t' w rest is
  · intro t' w is
    rw [goto_pc] at is
    split at is
    next => cases is
    next => exact sound.done t' w is
  · -- the thread has called every listener, and nobody has called one with another value
    have told : s.last i = some v := sound.done t v assigns i member
    simp [ConfigVar.mirrored, ConfigVar.goto, told]

theorem sound_step [DecidableEq T] {label : Label T} (sound : Sound initial cbs s) (undisturbed : Undisturbed s label)
    (stepped : step s label = some s') : Sound initial cbs s' := by
  cases label with
  | compare t v =>
    simp only [step] at stepped
    split at stepped
    next idle =>
      split at stepped
      next => exact Option.some.inj stepped ▸ sound
      next new => exact Option.some.inj stepped ▸ sound_compare sound idle (undisturbed new)
    next => cases stepped
  | call t =>
    simp only [step] at stepped
    split at stepped
    next v i rest calls => exact Option.some.inj stepped ▸ sound_call sound calls
    next => cases stepped
  | unlock t =>
    simp only [step] at stepped
    split at stepped
    next v calls => exact Option.some.inj stepped ▸ sound_unlock sound calls
    next => cases stepped
  | assign t =>
    simp only [step] at stepped
    split at stepped
    next v _ assigns => exact Option.some.inj stepped ▸ sound_assign sound assigns
    next => cases stepped

end Steps

/-- In every run in which a call that finds its value to be new is alone or set against
the same value, whenever no call is in progress every listener was last called with the
variable's value, or was never called and the value is the first one. -/
theorem listeners_agree [DecidableEq T] {initial : T} {cbs : List Nat} {labels : List (Label T)}
    {s : ConfigVar T}
    (steps : Run.Steps step Undisturbed (ConfigVar.new initial cbs) labels s) (quiet : s.Quiet)
    {i : Nat} (member : i ∈ cbs) : s.val = s.mirrored initial i := by
  have sound : Sound initial cbs s := steps.invariant
    (fun _ _ _ sound undisturbed stepped => sound_step sound undisturbed stepped)
    (sound_new initial cbs)
  rcases sound.mirrored i member with holds | ⟨t, v, is, -⟩
  · exact holds.symm
  · rw [quiet t] at is
    cases is

/-- Two calls that set the same value, one while the other is in progress. -/
theorem listeners_agree_overlapping :
    ∃ s, Run.Steps step Undisturbed (ConfigVar.new 0 [7])
        [.compare 0 5, .compare 1 5, .call 1, .call 0, .unlock 0, .unlock 1, .assign 1,
          .assign 0] s ∧
      s.Quiet ∧ s.val = s.mirrored 0 7 := by
  have steps : ∃ s, Run.Steps step Undisturbed (ConfigVar.new 0 [7])
      [.compare 0 5, .compare 1 5, .call 1, .call 0, .unlock 0, .unlock 1, .assign 1,
        .assign 0] s ∧ s.Quiet := by
    refine ⟨_, .cons ?_ rfl (.cons ?_ rfl (.cons trivial rfl (.cons trivial rfl
      (.cons trivial rfl (.cons trivial rfl (.cons trivial rfl (.cons trivial rfl
        (.nil _)))))))), ?_⟩
    · rintro _ t w ⟨⟩
    · intro _ t w is
      rw [goto_pc] at is
      split at is
      next => exact (Option.some.inj is).symm
      next => cases is
    · intro t
      simp only [goto_pc]
      split
      next => rfl
      next => split <;> simp_all [ConfigVar.new]
  obtain ⟨s, steps, quiet⟩ := steps
  exact ⟨s, steps, quiet, listeners_agree steps quiet (by simp)⟩

/-- Two calls with different values notify in one order and assign in the other. -/
theorem listeners_disagree :
    ∃ s, Run.run step (ConfigVar.new 0 [7])
        [.compare 0 1, .compare 1 2, .call 0, .call 1, .unlock 0, .unlock 1, .assign 1,
          .assign 0] = some s ∧
      s.Quiet ∧ s.val = 1 ∧ s.mirrored 0 7 = 2 := by
  refine ⟨_, rfl, ?_, rfl, rfl⟩
  intro t
  simp only [goto_pc]
  split
  next => rfl
  next => split <;> simp_all [ConfigVar.new]

end ServerFrame.Config
