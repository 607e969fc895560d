import ServerFrame.Timer.Expiry
import ServerFrame.Lib.Run

/-!
# The life of a timer

A timer is live from `AddTimer` until it is cancelled or, when it is not recurring,
collected. No operation brings it back.
-/
namespace ServerFrame

variable {γ : Type}

namespace TimerManager

/-- What an operation leaves of the objects that exist. -/
structure Keeps (m m' : TimerManager γ) : Prop where
  made : m.made ≤ m'.made
  recurring : ∀ i, i < m.made → (m'.objects i).recurring = (m.objects i).recurring
  dead : ∀ i, i < m.made → ¬ m.Live i → ¬ m'.Live i

theorem Keeps.refl (m : TimerManager γ) : Keeps m m :=
  ⟨Nat.le_refl _, fun _ _ => rfl, fun _ _ dead => dead⟩

theorem Keeps.trans {m m' m'' : TimerManager γ} (first : Keeps m m') (second : Keeps m' m'') :
    Keeps m m'' where
  made := Nat.le_trans first.made second.made
  recurring := fun i bound =>
    (second.recurring i (Nat.lt_of_lt_of_le bound first.made)).trans (first.recurring i bound)
  dead := fun i bound dead =>
    second.dead i (Nat.lt_of_lt_of_le bound first.made) (first.dead i bound dead)

/-- Replacing a live object, or making a new one. -/
theorem Keeps.of_update {m m' : TimerManager γ} {i : Nat} {timer : Timer γ}
    (objects : m'.objects = Function.update m.objects i timer) (made : m.made ≤ m'.made)
    (replaced : i < m.made → timer.recurring = (m.objects i).recurring ∧ m.Live i) :
    Keeps m m' := by
  refine ⟨made, fun j bound => ?_, fun j bound dead live => ?_⟩
  · by_cases same : j = i
    · subst same
      rw [objects, Function.update_self]
      exact (replaced bound).1
    · rw [objects, Function.update_of_ne same]
  · by_cases same : j = i
    · exact dead (same ▸ (replaced (same ▸ bound)).2)
    · apply dead
      refine ⟨bound, ?_⟩
      have callback := live.2
      rwa [objects, Function.update_of_ne same] at callback

variable {m : TimerManager γ}

theorem Keeps.of_collected {m' : TimerManager γ} {now : UInt64} {expired : List Nat}
    (did : Collected now expired m m') : Keeps m m' := by
  refine ⟨did.made, fun i bound => ?_, fun i bound dead live => dead ⟨bound, ?_⟩⟩
  · by_cases member : i ∈ expired
    · rw [did.collected i member, Timer.collected]
      split <;> rfl
    · rw [did.others i bound member]
  · have callback := live.2
    by_cases member : i ∈ expired
    · rw [did.collected i member, Timer.collected] at callback
      split at callback
      · exact callback
      · exact absurd callback Bool.false_ne_true
    · rwa [did.others i bound member] at callback

theorem addTimer_added (inv : Inv (fun _ => False) m) {addr : Nat} (ms : UInt64) (cb : γ)
    (recurring : Bool) (now : UInt64) (fresh : ∀ i ∈ m.timers, (m.objects i).addr ≠ addr) :
    ∃ notify m', addTimer addr ms (some cb) recurring now m = .ok (m.made, notify) m' ∧
      Inv (fun _ => False) m' ∧ m'.made = m.made + 1 ∧
      m'.objects = Function.update m.objects m.made (.new addr ms (some cb) recurring now) ∧
      ∀ j, j ∈ m'.timers ↔ j ∈ m.timers ∨ j = m.made := by
  have fresh_live : ∀ i, m.Live i → (m.objects i).addr ≠ addr := fun i live =>
    fresh i (((inv.live i).mpr live).resolve_right id)
  have inv' := inv.make_live (.new addr ms (some cb) recurring now) rfl fresh_live
  obtain ⟨notify, m', added, inv'', left⟩ := addTimerLocked_out inv' (.inr rfl)
  refine ⟨notify, m', ?_, inv''.congr fun j => by simp, left.made, left.objects, left.mem⟩
  have made : make (.new addr ms (some cb) recurring now) m = .ok m.made _ := rfl
  rw [addTimer, EState.run_bind_ok made, EState.run_bind_ok added, EState.run_pure]

theorem addTimer_spec (inv : Inv (fun _ => False) m) {addr : Nat} (ms : UInt64) (cb : γ)
    (recurring : Bool) (now : UInt64) (fresh : ∀ i ∈ m.timers, (m.objects i).addr ≠ addr) :
    ∃ notify m', addTimer addr ms (some cb) recurring now m = .ok (m.made, notify) m' ∧
      Inv (fun _ => False) m' ∧ Keeps m m' := by
  obtain ⟨notify, m', ran, inv', made, objects, -⟩ :=
    addTimer_added inv ms cb recurring now fresh
  refine ⟨notify, m', ran, inv', .of_update objects ?_ fun bound => absurd bound (Nat.lt_irrefl _)⟩
  rw [made]
  exact Nat.le_succ _

end TimerManager

namespace Timers

open TimerManager

/-- A call of one of the operations. `addr` is where the allocator puts a new object. -/
inductive Call (γ : Type) where
  | addTimer (addr : Nat) (ms : UInt64) (cb : γ) (recurring : Bool) (now : UInt64)
  | cancel (i : Nat)
  | refresh (i : Nat) (now : UInt64)
  | reset (i : Nat) (ms : UInt64) (fromNow : Bool) (now : UInt64)
  | getNextTimer (now : UInt64)
  | listExpiredCb (now : UInt64) (addr : Nat)

inductive Outcome (γ : Type) where
  | added (i : Nat)
  | cancelled (i : Nat) (result : Bool)
  | refreshed (i : Nat) (result : Bool)
  | reset (i : Nat) (result : Bool)
  | next (ms : UInt64)
  | listed (expired : List Nat) (cbs : List (Option γ))
  deriving DecidableEq

def exec : Call γ → TimerM γ (Outcome γ)
  | .addTimer addr ms cb recurring now => do
    let (i, _) ← addTimer addr ms (some cb) recurring now
    pure (.added i)
  | .cancel i => do pure (.cancelled i (← Timer.cancel i))
  | .refresh i now => do pure (.refreshed i (← Timer.refresh i now))
  | .reset i ms fromNow now => do
    let (result, _) ← Timer.reset i ms fromNow now
    pure (.reset i result)
  | .getNextTimer now => do pure (.next (← getNextTimer now))
  | .listExpiredCb now addr => do
    let (expired, cbs) ← listExpiredCb now addr
    pure (.listed expired cbs)

/-- A caller has pointers to timers that were made, and the allocator does not hand out
the address of an object that the set points to. -/
def possible (m : TimerManager γ) : Call γ → Bool
  | .addTimer addr _ _ _ _ => m.timers.all fun i => (m.objects i).addr != addr
  | .cancel i => decide (i < m.made)
  | .refresh i _ => decide (i < m.made)
  | .reset i _ _ _ => decide (i < m.made)
  | .getNextTimer _ => true
  | .listExpiredCb _ _ => true

/-- A run: the outcomes so far, and the fault that ended it. -/
structure World (γ : Type) where
  manager : TimerManager γ
  log : List (Outcome γ)
  fault : Option TimerFault

def World.new (now : UInt64) : World γ := ⟨.new now, [], none⟩

def step (w : World γ) (call : Call γ) : Option (World γ) :=
  if w.fault.isSome || !possible w.manager call then none
  else match exec call w.manager with
    | .ok outcome m => some { w with manager := m, log := w.log ++ [outcome] }
    | .error fault m => some { w with manager := m, fault := some fault }

/-- The timer was handed out by `ListExpiredCb`. -/
def Outcome.Collects (e : Outcome γ) (i : Nat) : Prop :=
  ∃ expired cbs, e = .listed expired cbs ∧ i ∈ expired

/-- The timer was cancelled, or it was collected and does not recur. -/
def Outcome.Ends (m : TimerManager γ) (e : Outcome γ) (i : Nat) : Prop :=
  e = .cancelled i true ∨ e.Collects i ∧ (m.objects i).recurring = false

/-- What one operation does: it keeps the invariant, only live timers are cancelled or
collected, and those that it ends are not live any more. -/
structure Fine (m : TimerManager γ) (outcome : Outcome γ) (m' : TimerManager γ) : Prop where
  inv : Inv (fun _ => False) m'
  keeps : Keeps m m'
  live : ∀ i, outcome = .cancelled i true ∨ outcome.Collects i → m.Live i
  ends : ∀ i, outcome.Ends m i → ¬ m'.Live i

/-- Operations that neither cancel nor collect. -/
theorem Fine.of_other {m m' : TimerManager γ} {outcome : Outcome γ} (inv : Inv (fun _ => False) m')
    (keeps : Keeps m m') (not_cancelled : ∀ i, outcome ≠ .cancelled i true)
    (not_collected : ∀ i, ¬ outcome.Collects i) : Fine m outcome m' := by
  refine ⟨inv, keeps, ?_, ?_⟩
  · rintro i (cancelled | collected)
    · exact absurd cancelled (not_cancelled i)
    · exact absurd collected (not_collected i)
  · rintro i (cancelled | ⟨collected, -⟩)
    · exact absurd cancelled (not_cancelled i)
    · exact absurd collected (not_collected i)

theorem Outcome.not_collects {e : Outcome γ} (other : ∀ expired cbs, e ≠ .listed expired cbs)
    (i : Nat) : ¬ e.Collects i := fun ⟨expired, cbs, same, _⟩ => other expired cbs same

section Exec

variable {m : TimerManager γ} {i : Nat}

theorem mem_or_dead (inv : Inv (fun _ => False) m) (made : i < m.made) :
    i ∈ m.timers ∨ (m.objects i).cb = none := by
  cases callback : (m.objects i).cb with
  | none => exact .inr rfl
  | some cb => exact .inl (((inv.live i).mpr ⟨made, by simp [callback]⟩).resolve_right id)

theorem exec_cancel (inv : Inv (fun _ => False) m) (made : i < m.made) :
    ∃ m', exec (.cancel i) m = .ok (.cancelled i (decide (i ∈ m.timers))) m' ∧
      Fine m (.cancelled i (decide (i ∈ m.timers))) m' := by
  have not_listed : ∀ result j, ¬ Outcome.Collects (γ := γ) (.cancelled i result) j := by
    rintro result j ⟨expired, cbs, ⟨⟩, -⟩
  rcases mem_or_dead inv made with member | dead
  · have live := (inv.live i).mp (.inl member)
    obtain ⟨m', ran, inv', objects, made', -, -⟩ := Timer.cancel_live inv member
    refine ⟨m', ?_, inv', .of_update objects (Nat.le_of_eq made'.symm) fun _ => ⟨rfl, live⟩, ?_, ?_⟩
    · rw [exec, EState.run_bind_ok ran, EState.run_pure, decide_eq_true member]
    · rintro j (same | collected)
      · obtain ⟨rfl, -⟩ := Outcome.cancelled.inj same
        exact live
      · exact absurd collected (not_listed _ j)
    · rintro j (same | ⟨collected, -⟩)
      · obtain ⟨rfl, -⟩ := Outcome.cancelled.inj same
        rintro ⟨-, callback⟩
        rw [objects, Function.update_self] at callback
        exact Bool.false_ne_true callback
      · exact absurd collected (not_listed _ j)
  · have not_mem : i ∉ m.timers := fun member => by
      have live := (inv.live i).mp (.inl member)
      simp [Live, dead] at live
    refine ⟨m, ?_, .of_other inv (.refl m) ?_ (not_listed _)⟩
    · rw [exec, EState.run_bind_ok (Timer.cancel_dead dead), EState.run_pure,
        decide_eq_false not_mem]
    · intro j same
      simp [not_mem] at same

theorem exec_refresh (inv : Inv (fun _ => False) m) (made : i < m.made) (now : UInt64) :
    ∃ outcome m', exec (.refresh i now) m = .ok outcome m' ∧ Fine m outcome m' := by
  rcases mem_or_dead inv made with member | dead
  · have live := (inv.live i).mp (.inl member)
    obtain ⟨m', ran, inv', objects, made', -, -⟩ := Timer.refresh_live inv member now
    refine ⟨.refreshed i true, m', ?_, .of_other inv'
      (.of_update objects (Nat.le_of_eq made'.symm) fun _ => ⟨rfl, live⟩) (by rintro j ⟨⟩)
      (Outcome.not_collects (by rintro _ _ ⟨⟩))⟩
    rw [exec, EState.run_bind_ok ran, EState.run_pure]
  · refine ⟨.refreshed i false, m, ?_, .of_other inv (.refl m) (by rintro j ⟨⟩)
      (Outcome.not_collects (by rintro _ _ ⟨⟩))⟩
    rw [exec, EState.run_bind_ok (Timer.refresh_dead dead now), EState.run_pure]

theorem reset_spec (inv : Inv (fun _ => False) m) (made : i < m.made) (ms : UInt64)
    (fromNow : Bool) (now : UInt64) :
    ∃ result m', Timer.reset i ms fromNow now m = .ok result m' ∧ Inv (fun _ => False) m' ∧
      Keeps m m' := by
  by_cases same : (ms = (m.objects i).ms && !fromNow) = true
  · refine ⟨(true, false), m, ?_, inv, .refl m⟩
    rw [Timer.reset, EState.run_bind_ok (EState.run_get m), if_pos same, EState.run_pure]
  · rw [Timer.reset, EState.run_bind_ok (EState.run_get m), if_neg same]
    rcases mem_or_dead inv made with member | dead
    · have live := (inv.live i).mp (.inl member)
      obtain ⟨mid, notify, m', ran, inv', added, objects, made', -, -⟩ :=
        Timer.resetLocked_live inv member ms fromNow now
      refine ⟨_, m', ran, inv', .of_update (added.objects.trans objects) ?_ fun _ => ⟨rfl, live⟩⟩
      rw [added.made, made']
    · exact ⟨_, m, Timer.resetLocked_dead dead ms fromNow now, inv, .refl m⟩

theorem exec_spec (inv : Inv (fun _ => False) m) (call : Call γ) (can : possible m call = true) :
    ∃ outcome m', exec call m = .ok outcome m' ∧ Fine m outcome m' := by
  cases call with
  | addTimer addr ms cb recurring now =>
    have fresh : ∀ j ∈ m.timers, (m.objects j).addr ≠ addr := by simpa [possible] using can
    obtain ⟨notify, m', ran, inv', keeps⟩ := addTimer_spec inv ms cb recurring now fresh
    refine ⟨.added m.made, m', ?_, .of_other inv' keeps (by rintro j ⟨⟩)
      (Outcome.not_collects (by rintro _ _ ⟨⟩))⟩
    rw [exec, EState.run_bind_ok ran]
    rfl
  | cancel i =>
    obtain ⟨m', ran, fine⟩ := exec_cancel inv (of_decide_eq_true can)
    exact ⟨_, m', ran, fine⟩
  | refresh i now => exact exec_refresh inv (of_decide_eq_true can) now
  | reset i ms fromNow now =>
    obtain ⟨result, m', ran, inv', keeps⟩ :=
      reset_spec inv (of_decide_eq_true can) ms fromNow now
    refine ⟨.reset i result.1, m', ?_, .of_other inv' keeps (by rintro j ⟨⟩)
      (Outcome.not_collects (by rintro _ _ ⟨⟩))⟩
    rw [exec, EState.run_bind_ok ran]
    rfl
  | getNextTimer now =>
    obtain ⟨ms, ran⟩ := run_getNextTimer now m
    refine ⟨.next ms, { m with tickled := false }, ?_, .of_other
      ⟨inv.sorted, inv.live, inv.apart, inv.distinct⟩ ⟨Nat.le_refl _, fun _ _ => rfl, fun _ _ dead => dead⟩ (by rintro j ⟨⟩)
      (Outcome.not_collects (by rintro _ _ ⟨⟩))⟩
    rw [exec, EState.run_bind_ok ran, EState.run_pure]
  | listExpiredCb now addr =>
    obtain ⟨m', ran, did⟩ := listExpiredCb_spec inv now addr
    refine ⟨.listed (m.expired now) ((m.expired now).map fun j => (m.objects j).cb), m', ?_,
      did.inv, .of_collected did, ?_, ?_⟩
    · rw [exec, EState.run_bind_ok ran]
      rfl
    · rintro j (same | ⟨_, _, ⟨⟩, member⟩)
      · cases same
      · exact (inv.live j).mp (.inl (mem_timers_of_expired member))
    · rintro j (same | ⟨⟨_, _, ⟨⟩, member⟩, one_shot⟩) live
      · cases same
      · have callback := live.2
        rw [did.collected j member, Timer.collected, if_neg (by simp [one_shot])] at callback
        exact Bool.false_ne_true callback

end Exec

/-! ## Runs -/

/-- What holds after every operation of a run. -/
structure Sound (w : World γ) : Prop where
  fault : w.fault = none
  inv : Inv (fun _ => False) w.manager
  known : ∀ e ∈ w.log, ∀ i, e = .cancelled i true ∨ e.Collects i → i < w.manager.made
  ended : ∀ e ∈ w.log, ∀ i, e.Ends w.manager i → ¬ w.manager.Live i
  log : w.log.Pairwise fun e e' => ∀ i, e.Ends w.manager i →
    e' ≠ .cancelled i true ∧ ¬ e'.Collects i

theorem sound_new (now : UInt64) : Sound (World.new (γ := γ) now) := by
  refine ⟨rfl, ⟨by simp [World.new, TimerManager.new], fun i => ?_, by simp, ?_⟩, ?_, ?_, ?_⟩
  · simp [World.new, TimerManager.new, Live]
  · rintro i j ⟨bound, -⟩
    exact absurd bound (Nat.not_lt_zero i)
  all_goals simp [World.new]

theorem sound_step {w w' : World γ} {call : Call γ} (sound : Sound w)
    (stepped : step w call = some w') : Sound w' := by
  simp only [step, sound.fault, Option.isSome_none, Bool.false_or] at stepped
  split at stepped
  next => cases stepped
  next can =>
    obtain ⟨outcome, m', ran, fine⟩ := exec_spec sound.inv call (by simpa using can)
    simp only [ran, Option.some.injEq] at stepped
    subst stepped
    -- an operation that ended a timer ended it in the earlier states as well
    have before : ∀ e ∈ w.log, ∀ i, e.Ends m' i → e.Ends w.manager i := by
      rintro e member i (cancelled | ⟨collected, one_shot⟩)
      · exact .inl cancelled
      · have made := sound.known e member i (.inr collected)
        exact .inr ⟨collected, by rw [← fine.keeps.recurring i made]; exact one_shot⟩
    have before_last : ∀ i, outcome.Ends m' i → outcome.Ends w.manager i := by
      rintro i (cancelled | ⟨collected, one_shot⟩)
      · exact .inl cancelled
      · have live := fine.live i (.inr collected)
        exact .inr ⟨collected, by rw [← fine.keeps.recurring i live.1]; exact one_shot⟩
    refine ⟨rfl, fine.inv, ?_, ?_, ?_⟩
    · intro e member i touched
      rcases List.mem_append.mp member with member | last
      · exact Nat.lt_of_lt_of_le (sound.known e member i touched) fine.keeps.made
      · rw [List.mem_singleton.mp last] at touched
        exact Nat.lt_of_lt_of_le (fine.live i touched).1 fine.keeps.made
    · intro e member i ends
      rcases List.mem_append.mp member with member | last
      · have made := sound.known e member i (ends.imp id And.left)
        exact fine.keeps.dead i made (sound.ended e member i (before e member i ends))
      · rw [List.mem_singleton.mp last] at ends
        exact fine.ends i (before_last i ends)
    · apply List.pairwise_append.mpr
      refine ⟨?_, List.pairwise_singleton _ _, ?_⟩
      · apply List.Pairwise.imp_of_mem _ sound.log
        intro e e' member _ later i ends
        exact later i (before e member i ends)
      · intro e member e' last i ends
        rw [List.mem_singleton] at last
        subst last
        have dead := sound.ended e member i (before e member i ends)
        exact ⟨fun cancelled => dead (fine.live i (.inl cancelled)),
          fun collected => dead (fine.live i (.inr collected))⟩

/-- After every run of operations: none of them erased at `end` or changed the key of an
element, the set is in order, it holds the timers that have a callback, `Cancel` answers
whether the timer is in the set, and a timer that was ended is not cancelled or collected
again. -/
theorem timers_invariant {now : UInt64} {calls : List (Call γ)} {w : World γ}
    (ran : Run.run step (World.new now) calls = some w) :
    w.fault = none ∧
    w.manager.timers.Pairwise w.manager.Before ∧
    (∀ i, i ∈ w.manager.timers ↔ i < w.manager.made ∧ (w.manager.objects i).cb ≠ none) ∧
    (∀ i, i < w.manager.made →
      ∃ m', Timer.cancel i w.manager = .ok (decide (i ∈ w.manager.timers)) m' ∧
        i ∉ m'.timers) ∧
    w.log.Pairwise (fun e e' => ∀ i, e.Ends w.manager i →
      e' ≠ .cancelled i true ∧ ¬ e'.Collects i) := by
  have sound : Sound w := Run.run_invariant (fun _ _ _ => sound_step) (sound_new now) ran
  have inv := sound.inv
  refine ⟨sound.fault, ?_, fun i => ?_, fun i made => ?_, sound.log⟩
  · exact inv.sorted.imp fun less => (w.manager.less_iff _ _).mp less
  · rw [← Option.isSome_iff_ne_none]
    simpa [Live] using inv.live i
  · rcases mem_or_dead inv made with member | dead
    · obtain ⟨m', ran, -, -, -, -, mem⟩ := Timer.cancel_live inv member
      exact ⟨m', by rw [ran, decide_eq_true member], by simp [mem]⟩
    · have not_mem : i ∉ w.manager.timers := fun member => by
        have live := (inv.live i).mp (.inl member)
        simp [Live, dead] at live
      exact ⟨w.manager, by rw [Timer.cancel_dead dead, decide_eq_false not_mem], not_mem⟩

/-- Two timers with one deadline, one of them recurring, are collected; the recurring one
is moved, cancelled, and cancelled again. -/
theorem timers_invariant_recurring :
    let calls : List (Call Nat) :=
      [.addTimer 20 5 1 true 0, .addTimer 10 5 2 false 0, .refresh 0 0, .listExpiredCb 5 30,
        .reset 0 7 true 6, .cancel 0, .cancel 0, .cancel 1, .listExpiredCb 100 30]
    ∃ w, Run.run step (World.new 0) calls = some w ∧
      w.log = [.added 0, .added 1, .refreshed 0 true, .listed [1, 0] [some 2, some 1],
        .reset 0 true, .cancelled 0 true, .cancelled 0 false, .cancelled 1 false, .listed [] []] ∧
      w.fault = none ∧
      w.log.Pairwise (fun e e' => ∀ i, e.Ends w.manager i →
        e' ≠ .cancelled i true ∧ ¬ e'.Collects i) := by
  intro calls
  have runs : (Run.run step (World.new 0) calls).isSome = true := by decide +kernel
  obtain ⟨w, ran⟩ := Option.isSome_iff_exists.mp runs
  have logged : (Run.run step (World.new 0) calls).map (·.log) =
    some [.added 0, .added 1, .refreshed 0 true, .listed [1, 0] [some 2, some 1],
      .reset 0 true, .cancelled 0 true, .cancelled 0 false, .cancelled 1 false,
      .listed [] []] := by decide +kernel
  rw [ran, Option.map_some, Option.some.injEq] at logged
  have holds := timers_invariant ran
  exact ⟨w, ran, logged, holds.1, holds.2.2.2.2⟩

end Timers

end ServerFrame
